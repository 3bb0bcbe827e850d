import Persola.Lib.InOrder
import Persola.Tools.Limited

/-!
# `Tools.Flattening` — which calls are extracted, and in which order

`_normalize_calls` flattens what a value wraps: it makes one call of every object with a name that stands somewhere in
arrays and under `tool_calls`, in the order in which they stand there. `parse_tool_calls` puts what its three extractors
find in a row and keeps of equal calls the first. Both do so unless a text they read as JSON has an integer with more
digits than Python converts, and then they raise (`extraction_iff`).
-/

namespace Persola.Tools

open Json
open Number (Fault)

variable {ν : Type*}

/-- An object with a name stands at this place of a value: indices lead into arrays, and nothing into what is wrapped. -/
inductive At : Json ν → List ℕ → List (String × Json ν) → Prop
  | named {raw : List (String × Json ν)} (hwrap : raw.lookup "tool_calls" = none) (hname : (raw.lookup "name").isSome) :
      At (.obj raw) [] raw
  | wrapped {raw : List (String × Json ν)} {v : Json ν} {path : List ℕ} {leaf : List (String × Json ν)}
      (hwrap : raw.lookup "tool_calls" = some v) (hat : At v path leaf) : At (.obj raw) path leaf
  | item {items : List (Json ν)} {i : ℕ} {v : Json ν} {path : List ℕ} {leaf : List (String × Json ν)}
      (hitem : items[i]? = some v) (hat : At v path leaf) : At (.arr items) (i :: path) leaf

theorem leavesItems_eq (items : List (Json ν)) : leavesItems items = items.flatMap leaves := by
  induction items with
  | nil => rfl
  | cons item items ih =>
      rw [leavesItems, ih]
      rfl

/-- **The objects with a name** are collected in the order of their places. -/
theorem leaves_inOrder (v : Json ν) : InOrder (At v) (leaves v) := by
  induction v using rec_mem with
  | null | bool | number | str => exact .nil fun path leaf hat => by cases hat
  | arr items ih =>
      rw [leaves, leavesItems_eq]
      refine (InOrder.flatMap ih).congr fun path leaf => ?_
      constructor
      · rintro ⟨i, rest, item, rfl, hitem, hat⟩
        exact .item hitem hat
      · rintro (_ | _ | ⟨hitem, hat⟩)
        exact ⟨_, _, _, rfl, hitem, hat⟩
  | obj raw ih =>
      rw [leaves, leavesWrapped_eq]
      cases hwrap : raw.lookup "tool_calls" with
      | some w =>
          refine (ih _ (mem_of_lookup hwrap)).congr fun path leaf => ⟨.wrapped hwrap, fun hat => ?_⟩
          cases hat with
          | named hplain => cases hplain.symm.trans hwrap
          | wrapped hwrap' hat =>
              obtain rfl := Option.some.inj (hwrap'.symm.trans hwrap)
              exact hat
      | none =>
          dsimp only [Option.map_none]
          have hplain {path : List ℕ} {leaf : List (String × Json ν)} (hat : At (.obj raw) path leaf) :
              path = [] ∧ leaf = raw ∧ (raw.lookup "name").isSome := by
            cases hat with
            | named hplain hname => exact ⟨rfl, rfl, hname⟩
            | wrapped hwrap' => cases hwrap'.symm.trans hwrap
          split
          · next hname =>
              refine (InOrder.singleton [] raw).congr fun path leaf => ⟨?_, fun hat => ⟨(hplain hat).1, (hplain hat).2.1⟩⟩
              rintro ⟨rfl, rfl⟩
              exact .named hwrap hname
          · next hname => exact .nil fun path leaf hat => hname (hplain hat).2.2

/-! ## Texts that fit -/

namespace Limited

variable [Numeral ν]

/-- `json.loads(s)` raises nothing but a `JSONDecodeError`. -/
def Fits (ν : Type*) [Numeral ν] (s : List Char) : Prop := loads (ν := ν) s ≠ .error .valueError

/-- The arguments that a value gives as texts fit. -/
def ArgumentsFit (v : Json ν) : Prop := ∀ path leaf, At v path leaf → ∀ s, arguments leaf = .str s → Fits ν s.toList

/-- A text that is read as calls fits, and so do the arguments in it. -/
def JsonFits (ν : Type*) [Numeral ν] (s : List Char) : Prop :=
  Fits ν s ∧ ∀ v : Json ν, loads s = .ok v → ArgumentsFit v

/-- All that the extractors read as JSON fits. -/
structure TextFits (ν : Type*) [Numeral ν] (text : List Char) : Prop where
  message : (strip text).head? = some '{' ∨ (strip text).head? = some '[' → JsonFits ν (strip text)
  fences : ∀ groups ∈ Regex.finditer fenceRe 0 text, JsonFits ν (groups.getD 0 [])
  lines : ∀ groups ∈ Regex.finditer toolLineRe 0 text, Fits ν (groups.getD 1 [])

/-- `_normalize_calls` returns the calls of the objects with a name, in the order of their places. -/
def Flattens (repr : Json ν → String) (v : Json ν) : Prop :=
  ∃ raws calls, InOrder (At v) raws ∧ List.Forall₂ (fun raw call => leafCall repr raw = .ok call) raws calls ∧
    normalizeCalls repr v = .ok calls

/-- `parse_tool_calls` returns what the extractors find, without what repeats an earlier call. -/
def Extracts (repr : Json ν → String) (text : List Char) : Prop :=
  ∃ message fences lines calls, messageCalls repr (strip text) = .ok message ∧ fencedCalls repr text = .ok fences ∧
    lineCalls text = .ok lines ∧ parseToolCalls repr text = .ok calls ∧ (calls.map callKey).Nodup ∧
    InOrder (FirstAt callKey (message ++ fences ++ lines)) calls

section
variable {repr : Json ν → String} {s text : List Char} {v : Json ν}

/-- **What does not fit has an integer with too many digits.** -/
theorem exists_longInteger (h : ¬ Fits ν s) : ∃ u, u <:+ s ∧ longInteger u = true := by
  have hraised : loads (ν := ν) s = .error .valueError := not_not.mp h
  have hagrees := loads_agrees (ν := ν) s
  rw [hraised] at hagrees
  rcases hagrees with ⟨heq, -⟩ | ⟨-, u, hu, hnumber⟩
  · cases heq
  · refine ⟨u, hu, ?_⟩
    unfold number at hnumber
    split at hnumber
    · next hlong => exact hlong
    · cases hscan : Numeral.scan (ν := ν) u with
      | some r =>
          rw [hscan] at hnumber
          cases hnumber
      | none =>
          rw [hscan] at hnumber
          cases hnumber

theorem exists_loadsOr_iff {β : Type*} {otherwise : β} {f : Json ν → Except Fault β} :
    (∃ b, loadsOr s otherwise f = .ok b) ↔ Fits ν s ∧ ∀ v, loads s = .ok v → ∃ b, f v = .ok b := by
  unfold loadsOr Fits
  cases loads (ν := ν) s with
  | ok v =>
      constructor
      · intro h
        refine ⟨fun hraised => (nomatch hraised), fun v' hv => ?_⟩
        obtain rfl := Except.ok.inj hv
        exact h
      · exact fun ⟨_, h⟩ => h v rfl
  | error e =>
      cases e with
      | decodeError => exact iff_of_true ⟨otherwise, rfl⟩ ⟨fun h => (nomatch h), fun v h => (nomatch h)⟩
      | valueError => exact iff_of_false (fun ⟨b, hb⟩ => nomatch hb) (fun h => h.1 rfl)

theorem exists_readArguments_iff {args : Json ν} :
    (∃ args', readArguments args = .ok args') ↔ ∀ s, args = .str s → Fits ν s.toList := by
  cases args with
  | str s =>
      refine exists_loadsOr_iff.trans ⟨fun h s' hs => ?_, fun h => ⟨h s rfl, fun v _ => ⟨v, rfl⟩⟩⟩
      obtain rfl := Json.str.inj hs
      exact h.1
  | null | bool | number | arr | obj => exact iff_of_true ⟨_, rfl⟩ fun s h => by cases h

theorem exists_leafCall_iff {raw : List (String × Json ν)} :
    (∃ call, leafCall repr raw = .ok call) ↔ ∀ s, arguments raw = .str s → Fits ν s.toList := by
  rw [← exists_readArguments_iff]
  exact exists_map_iff

/-- **`_normalize_calls` returns exactly if the arguments fit.** -/
theorem exists_normalizeCalls_iff : (∃ calls, normalizeCalls repr v = .ok calls) ↔ ArgumentsFit v := by
  rw [normalizeCalls_eq_mapM, exists_mapM_iff]
  constructor
  · intro h path leaf hat
    exact exists_leafCall_iff.mp (h leaf ((leaves_inOrder v).mem_iff.mpr ⟨path, hat⟩))
  · intro h leaf hleaf
    obtain ⟨path, hat⟩ := (leaves_inOrder v).mem_iff.mp hleaf
    exact exists_leafCall_iff.mpr (h path leaf hat)

theorem flattens_iff : Flattens repr v ↔ ArgumentsFit v := by
  refine Iff.trans ?_ (exists_normalizeCalls_iff : (∃ calls, normalizeCalls repr v = .ok calls) ↔ _)
  constructor
  · rintro ⟨raws, calls, -, -, hcalls⟩
    exact ⟨calls, hcalls⟩
  · rintro ⟨calls, hcalls⟩
    refine ⟨leaves v, calls, leaves_inOrder v, mapM_eq_ok_iff.mp ?_, hcalls⟩
    rw [← normalizeCalls_eq_mapM]
    exact hcalls

theorem exists_jsonCalls_iff : (∃ calls, jsonCalls repr s = .ok calls) ↔ JsonFits ν s := by
  refine exists_loadsOr_iff.trans (and_congr_right fun _ => ?_)
  exact forall_congr' fun v => imp_congr_right fun _ => exists_normalizeCalls_iff

theorem exists_messageCalls_iff : (∃ calls, messageCalls repr s = .ok calls) ↔
    (s.head? = some '{' ∨ s.head? = some '[' → JsonFits ν s) := by
  unfold messageCalls
  split
  · next hopen => exact exists_jsonCalls_iff.trans ⟨fun h _ => h, fun h => h hopen⟩
  · next hclosed => exact iff_of_true ⟨[], rfl⟩ fun hopen => absurd hopen hclosed

theorem exists_fencedCalls_iff : (∃ calls, fencedCalls repr text = .ok calls) ↔
    ∀ groups ∈ Regex.finditer fenceRe 0 text, JsonFits ν (groups.getD 0 []) := by
  unfold fencedCalls
  rw [exists_map_iff, exists_mapM_iff]
  exact forall_congr' fun groups => imp_congr_right fun _ => exists_jsonCalls_iff

theorem exists_lineCall_iff {groups : List (List Char)} :
    (∃ calls, lineCall (ν := ν) groups = .ok calls) ↔ Fits ν (groups.getD 1 []) := by
  refine exists_loadsOr_iff.trans (and_iff_left fun v _ => ?_)
  cases v with
  | obj args => exact ⟨_, rfl⟩
  | null | bool | number | str | arr => exact ⟨[], rfl⟩

theorem exists_lineCalls_iff : (∃ calls, lineCalls (ν := ν) text = .ok calls) ↔
    ∀ groups ∈ Regex.finditer toolLineRe 0 text, Fits ν (groups.getD 1 []) := by
  unfold lineCalls
  rw [exists_map_iff, exists_mapM_iff]
  exact forall_congr' fun groups => imp_congr_right fun _ => exists_lineCall_iff

/-! ## The calls of a text -/

theorem deduplicate_eq (seen : List (List Char)) (calls : List (ToolCall ν)) :
    deduplicate seen calls = firsts callKey seen calls := by
  induction calls generalizing seen with
  | nil => rfl
  | cons call calls ih =>
      show (if callKey call ∈ seen then deduplicate seen calls else call :: deduplicate (callKey call :: seen) calls) = _
      rw [firsts, ih, ih]
      by_cases hseen : callKey call ∈ seen
      · rw [if_pos hseen, if_pos hseen]
      · rw [if_neg hseen, if_neg hseen]

omit [Numeral ν] in
/-- A text that is stripped to nothing is all space. -/
theorem isSpace_of_strip (h : strip text = []) : ∀ c ∈ text, Py.isSpace c = true := by
  have hstrip : strip text = (text.reverse.dropWhile Py.isSpace).reverse.dropWhile Py.isSpace := by
    simp only [strip, Py.strip, Py.rstrip, String.toList_ofList]
  rw [hstrip, List.dropWhile_eq_nil_iff] at h
  intro c hc
  rw [← List.mem_reverse, ← List.takeWhile_append_dropWhile (p := Py.isSpace) (l := text.reverse), List.mem_append] at hc
  rcases hc with hc | hc
  · exact List.mem_takeWhile_imp hc
  · exact h c (List.mem_reverse.mpr hc)

omit [Numeral ν] in
/-- A blank text has no fences and no lines. -/
theorem finditer_of_blank (h : strip text = []) :
    Regex.finditer fenceRe 0 text = [] ∧ Regex.finditer toolLineRe 0 text = [] := by
  have hspaces := isSpace_of_strip h
  constructor
  · refine List.eq_nil_iff_forall_not_mem.mpr fun groups hgroups => ?_
    obtain ⟨u, t, hu, hways⟩ := Regex.of_mem_finditer hgroups
    obtain ⟨a, g, b, -, rfl, -⟩ := of_mem_fence hways
    have htick : Py.isSpace tick = true := hspaces tick (hu.subset List.mem_cons_self)
    exact absurd htick (by decide)
  · refine List.eq_nil_iff_forall_not_mem.mpr fun groups hgroups => ?_
    obtain ⟨u, t, hu, hways⟩ := Regex.of_mem_finditer hgroups
    obtain ⟨a, w, rfl, -, -⟩ := of_mem_toolLine hways
    have hclose : Py.isSpace ')' = true := hspaces ')' (hu.subset (List.mem_append_right a List.mem_cons_self))
    exact absurd hclose (by decide)

/-- A text whose pieces can be read is parsed. -/
theorem parseToolCalls_eq {message fences lines : List (ToolCall ν)} (hmessage : messageCalls repr (strip text) = .ok message)
    (hfences : fencedCalls repr text = .ok fences) (hlines : lineCalls text = .ok lines) :
    parseToolCalls repr text = .ok (firsts callKey [] (message ++ fences ++ lines)) := by
  unfold parseToolCalls
  split
  · next hblank =>
      obtain ⟨hfence, hline⟩ := finditer_of_blank hblank
      have hnomessage : messageCalls repr (strip text) = .ok ([] : List (ToolCall ν)) := by
        rw [hblank]
        exact if_neg (by simp)
      unfold fencedCalls at hfences
      unfold lineCalls at hlines
      rw [hfence] at hfences
      rw [hline] at hlines
      rw [← Except.ok.inj (hnomessage.symm.trans hmessage), ← Except.ok.inj hfences, ← Except.ok.inj hlines]
      rfl
  · rw [hmessage, hfences, hlines, ← deduplicate_eq]
    rfl

theorem extracts_iff : Extracts repr text ↔ TextFits ν text := by
  constructor
  · rintro ⟨message, fences, lines, calls, hmessage, hfences, hlines, -⟩
    exact ⟨exists_messageCalls_iff.mp ⟨message, hmessage⟩, exists_fencedCalls_iff.mp ⟨fences, hfences⟩,
      exists_lineCalls_iff.mp ⟨lines, hlines⟩⟩
  · intro h
    obtain ⟨message, hmessage⟩ : ∃ calls, messageCalls repr (strip text) = .ok calls :=
      exists_messageCalls_iff.mpr h.message
    obtain ⟨fences, hfences⟩ : ∃ calls, fencedCalls repr text = .ok calls := exists_fencedCalls_iff.mpr h.fences
    obtain ⟨lines, hlines⟩ := exists_lineCalls_iff.mpr h.lines
    exact ⟨message, fences, lines, _, hmessage, hfences, hlines, parseToolCalls_eq hmessage hfences hlines, nodup_firsts,
      firsts_inOrder _⟩

/-- **A text is parsed** exactly if what is read in it fits. -/
theorem exists_parseToolCalls_iff : (∃ calls, parseToolCalls repr text = .ok calls) ↔ TextFits ν text := by
  constructor
  · rintro ⟨calls, h⟩
    unfold parseToolCalls at h
    split at h
    · next hblank =>
        obtain ⟨hfence, hline⟩ := finditer_of_blank hblank
        refine ⟨fun hopen => ?_, fun groups hgroups => ?_, fun groups hgroups => ?_⟩
        · rw [hblank] at hopen
          simp at hopen
        · rw [hfence] at hgroups
          cases hgroups
        · rw [hline] at hgroups
          cases hgroups
    · obtain ⟨message, hmessage, h⟩ := bind_eq_ok_iff.mp h
      obtain ⟨fences, hfences, h⟩ := bind_eq_ok_iff.mp h
      obtain ⟨lines, hlines, -⟩ := bind_eq_ok_iff.mp h
      exact ⟨exists_messageCalls_iff.mp ⟨message, hmessage⟩, exists_fencedCalls_iff.mp ⟨fences, hfences⟩,
        exists_lineCalls_iff.mp ⟨lines, hlines⟩⟩
  · intro h
    have hextracts : Extracts repr text := extracts_iff.mpr h
    obtain ⟨-, -, -, calls, -, -, -, hcalls, -⟩ := hextracts
    exact ⟨calls, hcalls⟩

/-- **What is extracted.** `_normalize_calls` returns the calls of the objects with a name, in the order of their places,
exactly if the arguments that are texts fit; `parse_tool_calls` returns the calls of the message, the fences and the
lines, of equal ones the first, exactly if all that it reads as JSON fits. -/
theorem extraction_iff (repr : Json ν → String) : (∀ v, Flattens repr v ↔ ArgumentsFit v) ∧
    ∀ text, Extracts repr text ↔ TextFits ν text :=
  ⟨fun _ => flattens_iff, fun _ => extracts_iff⟩

end

/-! ## An integer that is too long -/

theorem digitRun_ones (n : ℕ) {r : List Char} (hr : ∀ c ∈ r.head?, c.isDigit = false) :
    Number.digitRun (List.replicate (n + 1) '1' ++ r) = some (List.replicate (n + 1) '1', r) := by
  have hones : ∀ c ∈ List.replicate (n + 1) '1', c.isDigit = true := by
    intro c hc
    rw [List.eq_of_mem_replicate hc]
    rfl
  have hrest : r.takeWhile Char.isDigit = [] ∧ r.dropWhile Char.isDigit = r := by
    cases r with
    | nil => exact ⟨rfl, rfl⟩
    | cons c r =>
        have hc : ¬ c.isDigit = true := Bool.not_eq_true _ ▸ hr c rfl
        exact ⟨List.takeWhile_cons_of_neg hc, List.dropWhile_cons_of_neg hc⟩
  have hspan : (List.replicate (n + 1) '1' ++ r).span Char.isDigit = (List.replicate (n + 1) '1', r) := by
    rw [List.span_eq_takeWhile_dropWhile, List.takeWhile_append_of_pos hones, List.dropWhile_append_of_pos hones, hrest.1,
      hrest.2, List.append_nil]
  rw [Number.digitRun.eq_def]
  split
  · next heq => cases (List.cons.inj heq).1
  · rw [hspan]
    rfl

theorem longInteger_ones {n : ℕ} (hn : Number.maxStrDigits < n + 1) {r : List Char} (hr : ∀ c ∈ r.head?, c = ']') :
    longInteger (List.replicate (n + 1) '1' ++ r) = true := by
  have hend : (∀ c ∈ r.head?, c.isDigit = false) ∧ (Number.fraction r).isNone = true ∧
      (Number.exponent r).isNone = true := by
    cases r with
    | nil => exact ⟨(fun c hc => nomatch hc), rfl, rfl⟩
    | cons c r =>
        obtain rfl := hr c rfl
        exact ⟨fun c hc => Option.some.inj hc ▸ rfl, rfl, rfl⟩
  obtain ⟨hdigit, hfraction, hexponent⟩ := hend
  have hunsigned : unsigned (List.replicate (n + 1) '1' ++ r) = List.replicate (n + 1) '1' ++ r := rfl
  have hlong : Number.maxStrDigits < (List.replicate (n + 1) '1').length := by
    rw [List.length_replicate]
    exact hn
  unfold longInteger
  rw [hunsigned, digitRun_ones n hdigit]
  dsimp only
  rw [decide_eq_true hlong, hfraction, hexponent]
  rfl

section
variable {fuel : ℕ} {c : Char} {s : List Char}

theorem readOnce_long (hc : numberStart c) (hlong : longInteger (c :: s) = true) :
    readOnce .decodeError (number (ν := ν)) (fuel + 1) (c :: s) = .error .valueError := by
  rw [readOnce_number hc, number, if_pos hlong]
  rfl

theorem skip_number (hc : numberStart c) : skip (c :: s) = c :: s := by
  refine skip_cons fun hblank => ?_
  have hblanks : ∀ c ∈ [' ', '\t', '\n', '\r'], numberStart c = false := List.all_iff_forall_prop.mp (by decide)
  rw [hblanks c hblank] at hc
  cases hc

/-- A long integer alone. -/
theorem loads_long (hc : numberStart c) (hlong : longInteger (c :: s) = true) :
    loads (ν := ν) (c :: s) = .error .valueError := by
  unfold loads Json.read
  rw [skip_number hc, readOnce_long hc hlong]
  rfl

/-- A long integer that starts a list, whatever comes behind it. -/
theorem loads_longItem (hc : numberStart c) (hlong : longInteger (c :: s) = true) :
    loads (ν := ν) ('[' :: c :: s) = .error .valueError := by
  have hfuel : 2 * ('[' :: c :: s).length + 1 = 2 * s.length + 2 + 1 + 1 + 1 := by
    rw [List.length_cons, List.length_cons]
    omega
  have hitems : readItems .decodeError (number (ν := ν)) (2 * s.length + 2 + 1 + 1) (c :: s) = .error .valueError := by
    rw [readItems, readOnce_long hc hlong]
    rfl
  have hlist : readOnce .decodeError (number (ν := ν)) (2 * s.length + 2 + 1 + 1 + 1) ('[' :: c :: s) =
      .error .valueError := by
    rw [readOnce_array, skip_number hc, hitems]
    · rfl
    · intro r heq
      rw [skip_number hc] at heq
      obtain ⟨rfl, -⟩ := List.cons.inj heq
      cases hc
  unfold loads Json.read
  rw [skip_cons (by decide), hfuel, hlist]
  rfl

end

/-- More ones than Python converts. -/
def ones : List Char := List.replicate (Number.maxStrDigits + 1) '1'

/-- A call whose arguments are a number, as a text. -/
def onesCall : Json ℤ := .obj [("name", .str "stop"), ("args", .str (String.ofList ones))]

/-- A list of a number, and a call on a line of its own. -/
def onesText : List Char := '[' :: (ones ++ ']' :: '\n' :: "TOOL_CALL: stop(\x7b\x7d)".toList)

theorem arguments_text {name : Json ν} {args : String} (hargs : args ≠ "") :
    arguments [("name", name), ("args", .str args)] = .str args := by
  have htrue : (Json.str (ν := ν) args).truthy = true := decide_eq_true hargs
  exact if_pos htrue

/-- **The number is raised**, and the call behind it is lost. -/
theorem ones_raised : ¬ Flattens (fun _ => "") onesCall ∧ ¬ Extracts (fun _ : Json ℤ => "") onesText := by
  have hlong {r : List Char} (hr : ∀ c ∈ r.head?, c = ']') :
      longInteger ('1' :: (List.replicate Number.maxStrDigits '1' ++ r)) = true :=
    longInteger_ones (Nat.lt_succ_self _) hr
  constructor
  · intro h
    have hargs : String.ofList ones ≠ "" := by
      intro hempty
      have hlength : ones.length = 0 := by
        rw [← String.toList_ofList (l := ones), hempty]
        rfl
      rw [ones, List.length_replicate] at hlength
      exact Nat.succ_ne_zero _ hlength
    have hfit := flattens_iff.mp h [] _ (.named rfl rfl) (String.ofList ones) (arguments_text hargs)
    rw [String.toList_ofList] at hfit
    have hnone := hlong (r := []) fun c hc => nomatch hc
    rw [List.append_nil] at hnone
    exact hfit (loads_long rfl hnone)
  · intro h
    have hstrip : strip onesText = onesText := by
      refine strip_eq_self (by rintro c ⟨⟩; decide) fun c hc => ?_
      have hlast : onesText.getLast? = some ')' := by
        rw [onesText, List.getLast?_cons, List.getLast?_append]
        rfl
      rw [hlast] at hc
      obtain rfl := Option.some.inj hc
      decide
    have hfit := (extracts_iff.mp h).message
    rw [hstrip] at hfit
    exact (hfit (.inr rfl)).1 (loads_longItem rfl (hlong fun c hc => (Option.some.inj hc).symm))

end Limited

end Persola.Tools
