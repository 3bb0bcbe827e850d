import Mathlib.Data.Rat.Floor
import Mathlib.Data.List.Nodup
import Mathlib.Tactic.Linarith
import Mathlib.Tactic.Ring

/-!
# `Py` — the parts of Python's built-ins the sources lean on

Truthiness of optional strings (`a or b`), `str.strip`, `str.rstrip`, `str.split(sep)[0]`, `round(x, ndigits)` in
exact arithmetic (ties to even) and its formatting, and dictionaries filled by assignment. Texts are `String`s;
where a function walks over a text it does so on its list of characters, so it evaluates.
-/

namespace Py

/-- `a or b` on an optional string: `None` and the empty string are falsy. -/
def orElse (a : Option String) (b : String) : String :=
  match a with
  | some s => if s = "" then b else s
  | none => b

theorem orElse_some_empty (s : String) : orElse (some s) "" = s := by
  unfold orElse
  dsimp only
  split
  · next h => exact h.symm
  · rfl

/-- A text stands for itself exactly if it is not empty. -/
theorem orElse_some_eq_iff {s b : String} (hb : b ≠ "") : orElse (some s) b = s ↔ s ≠ "" := by
  unfold orElse
  dsimp only
  by_cases hs : s = ""
  · rw [if_pos hs]
    exact iff_of_false (fun h => hb (h.trans hs)) (not_not.mpr hs)
  · rw [if_neg hs]
    exact iff_of_true rfl hs

/-- The characters `str.strip` removes. -/
def isSpace (c : Char) : Bool :=
  let n := c.toNat
  (9 ≤ n && n ≤ 13) || (28 ≤ n && n ≤ 32) || n == 0x85 || n == 0xa0 || n == 0x1680 ||
    (0x2000 ≤ n && n ≤ 0x200a) || n == 0x2028 || n == 0x2029 || n == 0x202f || n == 0x205f ||
    n == 0x3000

/-- `s.rstrip()`. -/
def rstrip (s : String) : String :=
  String.ofList (s.toList.reverse.dropWhile isSpace).reverse

/-- `s.strip()`. -/
def strip (s : String) : String :=
  String.ofList ((rstrip s).toList.dropWhile isSpace)

/-- `s.split(sep)[0]` on characters: everything before the first occurrence of `sep`. -/
def charsBefore (sep : List Char) : List Char → List Char
  | [] => []
  | c :: cs => if sep.isPrefixOf (c :: cs) then [] else c :: charsBefore sep cs

/-- `s.split(sep)[0]` for a non-empty separator. -/
def splitHead (s sep : String) : String :=
  String.ofList (charsBefore sep.toList s.toList)

/-- `round(x, digits)` in exact arithmetic: to the nearest multiple of `10 ^ -digits`, ties to even. -/
def round (digits : ℕ) (x : ℚ) : ℚ :=
  let scaled := x * 10 ^ digits
  let lower := ⌊scaled⌋
  let rest := scaled - lower
  let nearest : ℤ :=
    if rest < 1 / 2 then lower
    else if 1 / 2 < rest then lower + 1
    else if lower % 2 = 0 then lower else lower + 1
  nearest / 10 ^ digits

/-- `f"{x:.0f}"`, in exact arithmetic; what rounds to zero from below keeps its sign. -/
def formatWhole (x : ℚ) : String :=
  (if x < 0 then "-" else "") ++ toString (round 0 x).num.natAbs

theorem strip_sublist (s : String) : (strip s).toList.Sublist s.toList := by
  unfold strip rstrip
  rw [String.toList_ofList, String.toList_ofList]
  refine (List.dropWhile_sublist _).trans ?_
  simpa using (List.dropWhile_sublist (l := s.toList.reverse) isSpace).reverse

/-- **A text is stripped already** exactly if it neither starts nor ends with a blank. -/
theorem strip_eq_self_iff {text : List Char} : (strip (String.ofList text)).toList = text ↔
    (∀ c ∈ text.head?, isSpace c = false) ∧ ∀ c ∈ text.getLast?, isSpace c = false := by
  have hdrop (s : List Char) : s.dropWhile isSpace = s ↔ ∀ c ∈ s.head?, isSpace c = false := by
    cases s with
    | nil => simp
    | cons c s =>
        by_cases hc : isSpace c
        · refine iff_of_false (fun h => ?_) (fun h => by simp [h c rfl] at hc)
          rw [List.dropWhile_cons_of_pos hc] at h
          exact absurd (h ▸ (List.dropWhile_sublist isSpace).length_le) (by simp)
        · simp [List.dropWhile_cons_of_neg hc, hc]
  have htoList : (strip (String.ofList text)).toList =
      (text.reverse.dropWhile isSpace).reverse.dropWhile isSpace := by
    unfold strip rstrip
    rw [String.toList_ofList, String.toList_ofList, String.toList_ofList]
  rw [htoList, ← hdrop, ← List.head?_reverse, ← hdrop]
  constructor
  · intro h
    -- neither of the two cuts takes anything away
    have hleft : (text.reverse.dropWhile isSpace).reverse.length = text.length := by
      have hcut := (List.dropWhile_sublist (l := (text.reverse.dropWhile isSpace).reverse) isSpace).length_le
      rw [h] at hcut
      refine le_antisymm ?_ hcut
      simpa using (List.dropWhile_sublist (l := text.reverse) isSpace).length_le
    have hright : text.reverse.dropWhile isSpace = text.reverse := by
      refine (List.dropWhile_sublist isSpace).eq_of_length ?_
      simpa using hleft
    rw [hright, List.reverse_reverse] at h
    exact ⟨h, hright⟩
  · rintro ⟨hhead, hlast⟩
    rw [hlast, List.reverse_reverse, hhead]

/-- Stripping twice is stripping once. -/
theorem strip_strip (v : String) : strip (strip v) = strip v := by
  have hhead (s : List Char) : ∀ c ∈ (s.dropWhile isSpace).head?, isSpace c = false := by
    intro c hc
    have hfirst := List.head?_dropWhile_not isSpace s
    rw [Option.mem_def.mp hc] at hfirst
    simpa using hfirst
  refine String.toList_inj.mp ?_
  have hself := @strip_eq_self_iff (strip v).toList
  rw [String.ofList_toList] at hself
  refine hself.mpr ⟨?_, ?_⟩
  · unfold strip
    rw [String.toList_ofList]
    exact hhead _
  · intro c hc
    -- what is last after the cut on the left was last before it
    have hsuffix : (strip v).toList <:+ (v.toList.reverse.dropWhile isSpace).reverse := by
      unfold strip rstrip
      rw [String.toList_ofList, String.toList_ofList]
      exact List.dropWhile_suffix _
    obtain ⟨pre, hpre⟩ := hsuffix
    have hlast : (v.toList.reverse.dropWhile isSpace).reverse.getLast? = some c := by
      rw [← hpre, List.getLast?_append, Option.mem_def.mp hc]
      rfl
    rw [List.getLast?_reverse] at hlast
    exact hhead _ c hlast

/-- What has no more digits than asked for is kept. -/
theorem round_of_multiple (digits : ℕ) (n : ℤ) : round digits (n / 10 ^ digits) = n / 10 ^ digits := by
  have hscaled : (n : ℚ) / 10 ^ digits * 10 ^ digits = n := div_mul_cancel₀ _ (by positivity)
  unfold round
  dsimp only
  rw [hscaled, Int.floor_intCast, sub_self, if_pos (by norm_num)]

/-- Half a unit of the last digit is the most that rounding changes. -/
theorem round_error (digits : ℕ) (x : ℚ) : |round digits x - x| ≤ 1 / (2 * 10 ^ digits) := by
  have hpos : (0 : ℚ) < 10 ^ digits := by positivity
  have hlower := Int.floor_le (x * 10 ^ digits)
  have hupper := Int.lt_floor_add_one (x * 10 ^ digits)
  have hnearest : ∀ n : ℤ, |(n : ℚ) - x * 10 ^ digits| ≤ 1 / 2 →
      |(n : ℚ) / 10 ^ digits - x| ≤ 1 / (2 * 10 ^ digits) := by
    intro n hn
    have hscale : (n : ℚ) / 10 ^ digits - x = (n - x * 10 ^ digits) / 10 ^ digits := by
      rw [sub_div, mul_div_cancel_right₀ _ hpos.ne']
    rw [hscale, abs_div, abs_of_pos hpos, ← div_div]
    exact div_le_div_of_nonneg_right hn hpos.le
  unfold round
  dsimp only
  refine hnearest _ ?_
  rw [abs_le]
  split
  · constructor <;> linarith
  · split
    · push_cast
      constructor <;> linarith
    · split
      · constructor <;> linarith
      · push_cast
        constructor <;> linarith

/-- Rounding keeps the order. -/
theorem round_mono (digits : ℕ) {x y : ℚ} (h : x ≤ y) : round digits x ≤ round digits y := by
  have hpos : (0 : ℚ) < 10 ^ digits := by positivity
  have hscaled : x * 10 ^ digits ≤ y * 10 ^ digits := mul_le_mul_of_nonneg_right h hpos.le
  have hnearest : ∀ m n : ℤ, m ≤ n → (m : ℚ) / 10 ^ digits ≤ n / 10 ^ digits := fun m n hmn =>
    div_le_div_of_nonneg_right (Int.cast_le.mpr hmn) hpos.le
  unfold round
  dsimp only
  refine hnearest _ _ ?_
  generalize x * 10 ^ digits = a at *
  generalize y * 10 ^ digits = b at *
  rcases (Int.floor_le_floor hscaled).lt_or_eq with hlt | heq
  · -- from one whole number to the next there is room for both
    have hbelow : ∀ n : ℤ, (if a - n < 1 / 2 then n else if 1 / 2 < a - n then n + 1
        else if n % 2 = 0 then n else n + 1) ≤ n + 1 := by
      intro n
      split_ifs <;> omega
    have habove : ∀ n : ℤ, n ≤ (if b - n < 1 / 2 then n else if 1 / 2 < b - n then n + 1
        else if n % 2 = 0 then n else n + 1) := by
      intro n
      split_ifs <;> omega
    exact (hbelow _).trans (le_trans hlt (habove _))
  · rw [heq]
    have hrest : a - (⌊b⌋ : ℚ) ≤ b - ⌊b⌋ := sub_le_sub_right hscaled _
    generalize (⌊b⌋ : ℤ) = n at *
    split_ifs <;> first | omega | linarith

/-- What is less than half a unit of the last digit away from a decimal is rounded to it. -/
theorem round_eq_of_near {digits : ℕ} {x : ℚ} {n : ℤ} (h : |x - n / 10 ^ digits| < 1 / (2 * 10 ^ digits)) :
    round digits x = n / 10 ^ digits := by
  have hpos : (0 : ℚ) < 10 ^ digits := by positivity
  obtain ⟨k, hk⟩ : ∃ k : ℤ, round digits x = k / 10 ^ digits := ⟨_, rfl⟩
  have herror := round_error digits x
  rw [hk] at herror ⊢
  have hclose : |(k : ℚ) / 10 ^ digits - n / 10 ^ digits| < 1 / 10 ^ digits :=
    calc |(k : ℚ) / 10 ^ digits - n / 10 ^ digits|
        ≤ |(k : ℚ) / 10 ^ digits - x| + |x - n / 10 ^ digits| := abs_sub_le _ _ _
      _ < 1 / (2 * 10 ^ digits) + 1 / (2 * 10 ^ digits) := add_lt_add_of_le_of_lt herror h
      _ = 1 / 10 ^ digits := by field_simp; norm_num
  rw [← sub_div, abs_div, abs_of_pos hpos, div_lt_div_iff_of_pos_right hpos] at hclose
  have hkn : |k - n| < 1 := by exact_mod_cast hclose
  rw [sub_eq_zero.mp (Int.abs_lt_one_iff.mp hkn)]

/-- **What rounds to one**: up to half a unit of the last digit is missing; the tie goes up, as the power of
    ten is even. -/
theorem round_eq_one_iff {digits : ℕ} {x : ℚ} (hdigits : 0 < digits) (hx : x ≤ 1) :
    round digits x = 1 ↔ 2 * 10 ^ digits * (1 - x) ≤ 1 := by
  have hpos : (0 : ℚ) < 10 ^ digits := by positivity
  have hnearest (n : ℤ) : (n : ℚ) / 10 ^ digits = 1 ↔ n = 10 ^ digits := by
    rw [div_eq_one_iff_eq hpos.ne']
    exact_mod_cast Iff.rfl
  have heven : (10 : ℤ) ^ digits % 2 = 0 :=
    Int.emod_eq_zero_of_dvd (dvd_pow (by norm_num) hdigits.ne')
  have hle : x * 10 ^ digits ≤ ((10 ^ digits : ℤ) : ℚ) := by
    push_cast
    exact mul_le_of_le_one_left hpos.le hx
  have hlower := Int.floor_le (x * 10 ^ digits)
  have hupper := Int.lt_floor_add_one (x * 10 ^ digits)
  have hfloor : ⌊x * 10 ^ digits⌋ ≤ 10 ^ digits := by exact_mod_cast hlower.trans hle
  have hmissing : 2 * 10 ^ digits * (1 - x) = 2 * (((10 ^ digits : ℤ) : ℚ) - x * 10 ^ digits) := by
    push_cast
    ring
  unfold round
  dsimp only
  rw [hnearest, hmissing]
  generalize x * 10 ^ digits = scaled at *
  generalize (10 : ℤ) ^ digits = unit at *
  rcases hfloor.lt_or_eq with hlt | heq
  · have hstep : ⌊scaled⌋ + 1 ≤ unit := hlt
    have hstep' : ((⌊scaled⌋ : ℤ) : ℚ) + 1 ≤ unit := by exact_mod_cast hstep
    split
    · refine ⟨fun h => absurd h hlt.ne, fun h => ?_⟩
      linarith
    · next hup =>
        have hround : (if 1 / 2 < scaled - ⌊scaled⌋ then ⌊scaled⌋ + 1
            else if ⌊scaled⌋ % 2 = 0 then ⌊scaled⌋ else ⌊scaled⌋ + 1) = unit ↔ ⌊scaled⌋ + 1 = unit := by
          split
          · exact Iff.rfl
          · split
            · omega
            · exact Iff.rfl
        rw [hround]
        constructor
        · intro h
          have h : ((⌊scaled⌋ : ℤ) : ℚ) + 1 = unit := by exact_mod_cast h
          linarith
        · intro h
          have h : (unit : ℚ) < ((⌊scaled⌋ + 2 : ℤ) : ℚ) := by
            push_cast
            linarith
          have h : unit < ⌊scaled⌋ + 2 := by exact_mod_cast h
          omega
  · have hfull : scaled = unit := le_antisymm hle (heq ▸ hlower)
    rw [heq, hfull, sub_self, if_pos (by norm_num)]
    norm_num

example : splitHead "Ada · G3 · G4" " · G" = "Ada" ∧ rstrip "Ada \t" = "Ada" := by decide

/-! ## Dictionaries -/

section Dict

variable {κ α : Type*} [DecidableEq κ] {d l : List (κ × α)} {k : κ} {v : α}

/-- `d[k] = v`: a key keeps its place, a new key goes to the end. -/
def setItem : List (κ × α) → κ → α → List (κ × α)
  | [], k, v => [(k, v)]
  | e :: d, k, v => if e.1 = k then (k, v) :: d else e :: setItem d k v

/-- `d.get(k)`. -/
def getItem (d : List (κ × α)) (k : κ) : Option α := (d.find? (·.1 = k)).map Prod.snd

theorem getItem_cons (e : κ × α) : getItem (e :: d) k = if e.1 = k then some e.2 else getItem d k := by
  unfold getItem
  by_cases h : e.1 = k
  · simp [h]
  · simp [h]

theorem getItem_setItem (j : κ) : getItem (setItem d k v) j = if k = j then some v else getItem d j := by
  induction d with
  | nil => rw [setItem, getItem_cons]
  | cons e d ih =>
      rw [setItem]
      by_cases he : e.1 = k
      · rw [if_pos he, getItem_cons, getItem_cons, he]
        split
        · rfl
        · rfl
      · rw [if_neg he, getItem_cons, getItem_cons, ih]
        by_cases hj : e.1 = j
        · rw [if_pos hj, if_pos hj, if_neg fun hk => he (hj.trans hk.symm)]
        · rw [if_neg hj, if_neg hj]

theorem getItem_ne_none_iff : getItem d k ≠ none ↔ k ∈ d.map Prod.fst := by
  unfold getItem
  rw [ne_eq, Option.map_eq_none_iff, List.find?_eq_none, List.mem_map]
  simp

theorem keys_setItem (h : (d.map Prod.fst).Nodup) : ((setItem d k v).map Prod.fst).Nodup ∧
    ∀ j ∈ (setItem d k v).map Prod.fst, j = k ∨ j ∈ d.map Prod.fst := by
  induction d with
  | nil => simp [setItem]
  | cons e d ih =>
      obtain ⟨hnew, hd⟩ := List.nodup_cons.mp h
      obtain ⟨hnodup, hkeys⟩ := ih hd
      rw [setItem]
      by_cases he : e.1 = k
      · rw [if_pos he]
        refine ⟨List.nodup_cons.mpr ⟨he ▸ hnew, hd⟩, fun j hj => ?_⟩
        exact (List.mem_cons.mp hj).imp id (List.mem_cons_of_mem _)
      · rw [if_neg he]
        refine ⟨List.nodup_cons.mpr ⟨fun hmem => ?_, hnodup⟩, fun j hj => ?_⟩
        · exact (hkeys _ hmem).elim he hnew
        · rcases List.mem_cons.mp hj with rfl | hj
          · exact .inr List.mem_cons_self
          · exact (hkeys j hj).imp id (List.mem_cons_of_mem _)

/-- An assignment leaves old entries and its own. -/
theorem mem_setItem {e : κ × α} (h : e ∈ setItem d k v) : e = (k, v) ∨ e ∈ d := by
  induction d with
  | nil => exact .inl (List.mem_singleton.mp h)
  | cons e' d ih =>
      rw [setItem] at h
      split at h
      · exact (List.mem_cons.mp h).imp id (List.mem_cons_of_mem _)
      · rcases List.mem_cons.mp h with rfl | h
        · exact .inr List.mem_cons_self
        · exact (ih h).imp id (List.mem_cons_of_mem _)

/-- `for k, v in l: d[k] = v`. -/
def assign (d l : List (κ × α)) : List (κ × α) := l.foldl (fun d e => setItem d e.1 e.2) d

/-- A loop of assignments: the last one to a key counts. -/
theorem getItem_assign (d l : List (κ × α)) (k : κ) :
    getItem (assign d l) k = ((l.filter (·.1 = k)).getLast?.map Prod.snd).or (getItem d k) := by
  unfold assign
  induction l generalizing d with
  | nil => rfl
  | cons e l ih =>
      rw [List.foldl_cons, ih, getItem_setItem]
      by_cases he : e.1 = k
      · rw [if_pos he, List.filter_cons, if_pos (decide_eq_true he), List.getLast?_cons]
        cases (l.filter fun e => decide (e.1 = k)).getLast? <;> simp
      · rw [if_neg he, List.filter_cons, if_neg (by simpa using he)]

/-- Who assigned under a key finds its own value there exactly if nobody assigned there later. -/
theorem getItem_assign_own_iff {ι : Type*} (id : α → ι) {j : ℕ} {e : κ × α}
    (hnodup : (l.map fun e => id e.2).Nodup) (hj : l[j]? = some e) :
    (getItem (assign [] l) e.1).map id = some (id e.2) ↔
      ∀ i e', j < i → l[i]? = some e' → e'.1 ≠ e.1 := by
  have hsplit : l.take j ++ e :: l.drop (j + 1) = l := by
    obtain ⟨hlt, rfl⟩ := List.getElem?_eq_some_iff.mp hj
    simp
  -- those who assigned later under the same key
  let later := (l.drop (j + 1)).filter (·.1 = e.1)
  have hfilter : l.filter (·.1 = e.1) = (l.take j).filter (·.1 = e.1) ++ e :: later := by
    conv_lhs => rw [← hsplit]
    rw [List.filter_append, List.filter_cons, if_pos (by simp)]
  have hget : getItem (assign [] l) e.1 = some (later.getLast?.getD e).2 := by
    rw [getItem_assign, hfilter, List.getLast?_append, List.getLast?_cons]
    rfl
  have hlater : (∀ i e', j < i → l[i]? = some e' → e'.1 ≠ e.1) ↔ later = [] := by
    rw [List.filter_eq_nil_iff]
    constructor
    · intro h e' he' heq
      obtain ⟨i, hi⟩ := List.mem_iff_getElem?.mp he'
      rw [List.getElem?_drop] at hi
      exact h (j + 1 + i) e' (by omega) hi (of_decide_eq_true heq)
    · intro h i e' hlt hi heq
      refine h e' (List.mem_iff_getElem?.mpr ⟨i - (j + 1), ?_⟩) (decide_eq_true heq)
      rw [List.getElem?_drop, ← hi]
      congr 1
      omega
  rw [hlater, hget, Option.map_some, Option.some_inj]
  constructor
  · intro hid
    by_contra hne
    obtain ⟨e', he'⟩ := Option.ne_none_iff_exists'.mp (mt List.getLast?_eq_none_iff.mp hne)
    rw [he', Option.getD_some] at hid
    -- it is one that comes later, and none of these has this id
    have hmem := (List.mem_filter.mp (List.mem_of_getLast? he')).1
    rw [← hsplit, List.map_append, List.map_cons] at hnodup
    have htail := (List.nodup_append.mp hnodup).2.1
    refine (List.nodup_cons.mp htail).1 (List.mem_map.mpr ⟨e', hmem, hid⟩)
  · intro hnil
    rw [hnil]
    rfl

theorem keys_assign (hd : (d.map Prod.fst).Nodup) : ((assign d l).map Prod.fst).Nodup := by
  unfold assign
  induction l generalizing d with
  | nil => exact hd
  | cons e l ih => exact ih (keys_setItem hd).1

theorem setItem_new (h : k ∉ d.map Prod.fst) : setItem d k v = d ++ [(k, v)] := by
  induction d with
  | nil => rfl
  | cons e d ih =>
      rw [List.map_cons, List.mem_cons, not_or] at h
      rw [setItem, if_neg (Ne.symm h.1), ih h.2, List.cons_append]

/-- A loop over new keys appends their entries. -/
theorem assign_new (h : ((d ++ l).map Prod.fst).Nodup) : assign d l = d ++ l := by
  unfold assign
  induction l generalizing d with
  | nil => exact (List.append_nil d).symm
  | cons e l ih =>
      have hsplit : d ++ e :: l = d ++ [(e.1, e.2)] ++ l := (List.append_cons d e l)
      have hnew : e.1 ∉ d.map Prod.fst := by
        rw [List.map_append, List.map_cons] at h
        exact fun hmem => (List.nodup_append.mp h).2.2 e.1 hmem e.1 List.mem_cons_self rfl
      rw [List.foldl_cons, setItem_new hnew, hsplit]
      exact ih (hsplit ▸ h)

/-- A loop of assignments leaves old entries and its own. -/
theorem mem_assign {e : κ × α} (h : e ∈ assign d l) : e ∈ d ∨ e ∈ l := by
  unfold assign at h
  induction l generalizing d with
  | nil => exact .inl h
  | cons e' l ih =>
      rcases ih h with h | h
      · rcases mem_setItem h with rfl | h
        · exact .inr List.mem_cons_self
        · exact .inl h
      · exact .inr (List.mem_cons_of_mem _ h)

theorem getItem_of_mem (hl : (l.map Prod.fst).Nodup) {e : κ × α} (he : e ∈ l) : getItem l e.1 = some e.2 := by
  induction l with
  | nil => cases he
  | cons e' l ih =>
      obtain ⟨hnew, hl⟩ := List.nodup_cons.mp hl
      rw [getItem_cons]
      rcases List.mem_cons.mp he with rfl | he
      · rw [if_pos rfl]
      · have hne : e'.1 ≠ e.1 := fun heq => hnew (heq ▸ List.mem_map_of_mem he)
        rw [if_neg hne, ih hl he]

/-- In a dictionary the last entry of a key is the only one. -/
theorem getLast?_filter_key (hl : (l.map Prod.fst).Nodup) (k : κ) :
    (l.filter (·.1 = k)).getLast?.map Prod.snd = getItem l k := by
  induction l with
  | nil => rfl
  | cons e l ih =>
      obtain ⟨hnew, hl⟩ := List.nodup_cons.mp hl
      rw [getItem_cons]
      by_cases he : e.1 = k
      · have hnone : l.filter (fun e => decide (e.1 = k)) = [] := by
          refine List.filter_eq_nil_iff.mpr fun e' he' heq => hnew ?_
          exact List.mem_map.mpr ⟨e', he', (of_decide_eq_true heq).trans he.symm⟩
        rw [if_pos he, List.filter_cons, if_pos (decide_eq_true he), hnone]
        rfl
      · rw [if_neg he, List.filter_cons, if_neg (by simpa using he), ih hl]

end Dict

end Py
