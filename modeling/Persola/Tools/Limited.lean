import Persola.Lib.Numbers
import Persola.Lib.Refusals
import Persola.Tools.Leaves

/-!
# `Tools.Limited` — tool calls where Python limits the digits of integers

A text that is no JSON is a `JSONDecodeError`, which `parse_tool_calls` and `_normalize_calls` catch wherever they read
one. An integer with more digits than Python converts is a plain `ValueError`, which they do not catch: here they may
raise it. Where they do not, they return what they return in `Tools.Calls`, which knows no limit.
-/

namespace Persola.Tools.Limited

open Json
open Number (Fault digitRun fraction exponent maxStrDigits)

variable {ν : Type*} [Numeral ν]

/-! ## `json.loads` -/

/-- A number without its sign. -/
def unsigned : List Char → List Char
  | '-' :: s => s
  | s => s

/-- The number that starts here is an integer with more digits than Python converts. -/
def longInteger (s : List Char) : Bool :=
  match digitRun (unsigned s) with
  | none => false
  | some (digits, r) => maxStrDigits < digits.length && (fraction r).isNone && (exponent r).isNone

/-- `_match_number` -/
def number (s : List Char) : Except Fault (ν × List Char) :=
  if longInteger s then .error .valueError
  else match Numeral.scan s with
    | some r => .ok r
    | none => .error .decodeError

/-- `json.loads(s)`. -/
def loads (s : List Char) : Except Fault (Json ν) := Json.read .decodeError number s

/-- `json.loads(s)`, or something else if that is a `JSONDecodeError`. -/
def loadsOr {β : Type*} (s : List Char) (otherwise : β) (f : Json ν → Except Fault β) : Except Fault β :=
  match loads s with
  | .ok v => f v
  | .error .decodeError => .ok otherwise
  | .error .valueError => .error .valueError

/-! ## `_normalize_calls` -/

section
variable (repr : Json ν → String)

/-- Arguments that are a text are read as JSON. -/
def readArguments : Json ν → Except Fault (Json ν)
  | .str s => loadsOr s.toList (.obj [("value", .str s)]) .ok
  | args => .ok args

/-- The call an object with a name stands for. -/
def leafCall (raw : List (String × Json ν)) : Except Fault (ToolCall ν) :=
  (readArguments (arguments raw)).map fun args => ⟨nameText repr ((raw.lookup "name").getD .null), dictOf args⟩

mutual

/-- `_normalize_calls`. -/
def normalizeCalls : Json ν → Except Fault (List (ToolCall ν))
  | .obj raw =>
      match normalizeWrapped raw with
      | some calls => calls
      | none => if (raw.lookup "name").isSome then (leafCall repr raw).map ([·]) else .ok []
  | .arr items => normalizeItems items
  | _ => .ok []

/-- `_normalize_calls(raw["tool_calls"])`, if there is that key. -/
def normalizeWrapped : List (String × Json ν) → Option (Except Fault (List (ToolCall ν)))
  | [] => none
  | (k, v) :: raw => if k = "tool_calls" then some (normalizeCalls v) else normalizeWrapped raw

/-- The calls of the items, one after the other. -/
def normalizeItems : List (Json ν) → Except Fault (List (ToolCall ν))
  | [] => .ok []
  | item :: items => do
      let calls ← normalizeCalls item
      let rest ← normalizeItems items
      return calls ++ rest

end

/-! ## `parse_tool_calls` -/

/-- `calls.extend(_normalize_calls(json.loads(text)))`, or nothing for a text that is not JSON. -/
def jsonCalls (text : List Char) : Except Fault (List (ToolCall ν)) := loadsOr text [] (normalizeCalls repr)

/-- Whole-message JSON. -/
def messageCalls (stripped : List Char) : Except Fault (List (ToolCall ν)) :=
  if stripped.head? = some '{' ∨ stripped.head? = some '[' then jsonCalls repr stripped else .ok []

/-- Fenced blocks. -/
def fencedCalls (text : List Char) : Except Fault (List (ToolCall ν)) :=
  ((Regex.finditer fenceRe 0 text).mapM fun groups => jsonCalls repr (groups.getD 0 [])).map List.flatten

end

/-- The call of a `TOOL_CALL` line. -/
def lineCall (groups : List (List Char)) : Except Fault (List (ToolCall ν)) :=
  let name := String.ofList (groups.getD 0 [])
  loadsOr (groups.getD 1 []) [⟨name, []⟩] fun
    | .obj args => .ok [⟨name, args⟩]
    | _ => .ok []

/-- `TOOL_CALL` lines. -/
def lineCalls (text : List Char) : Except Fault (List (ToolCall ν)) :=
  ((Regex.finditer toolLineRe 0 text).mapM lineCall).map List.flatten

/-- `parse_tool_calls`. -/
def parseToolCalls (repr : Json ν → String) (text : List Char) : Except Fault (List (ToolCall ν)) :=
  if strip text = [] then .ok []
  else do
    let message ← messageCalls repr (strip text)
    let fences ← fencedCalls repr text
    let lines ← lineCalls text
    return deduplicate [] (message ++ fences ++ lines)

/-! ## Loops that may raise -/

theorem mapM_eq_ok_iff {ε α β : Type*} {f : α → Except ε β} {xs : List α} {ys : List β} :
    xs.mapM f = .ok ys ↔ List.Forall₂ (fun x y => f x = .ok y) xs ys := by
  induction xs generalizing ys with
  | nil =>
      rw [List.mapM_nil, List.forall₂_nil_left_iff]
      exact ⟨fun h => (Except.ok.inj h).symm, fun h => congrArg Except.ok h.symm⟩
  | cons x xs ih =>
      rw [List.mapM_cons, List.forall₂_cons_left_iff]
      cases hx : f x with
      | error e =>
          refine iff_of_false (fun h => nomatch h) ?_
          rintro ⟨y, ys, hy, -⟩
          cases hy
      | ok y =>
          cases hxs : xs.mapM f with
          | error e =>
              refine iff_of_false (fun h => nomatch h) ?_
              rintro ⟨y', ys', -, hys, -⟩
              rw [ih.mpr hys] at hxs
              cases hxs
          | ok ys' =>
              constructor
              · intro h
                exact ⟨y, ys', rfl, ih.mp hxs, (Except.ok.inj h).symm⟩
              · rintro ⟨y', ys'', hy, hys, rfl⟩
                rw [ih.mpr hys] at hxs
                rw [Except.ok.inj hy, Except.ok.inj hxs]
                rfl

theorem exists_mapM_iff {ε α β : Type*} {f : α → Except ε β} {xs : List α} :
    (∃ ys, xs.mapM f = .ok ys) ↔ ∀ x ∈ xs, ∃ y, f x = .ok y := by
  induction xs with
  | nil => exact iff_of_true ⟨[], rfl⟩ (fun x hx => absurd hx List.not_mem_nil)
  | cons x xs ih =>
      rw [List.forall_mem_cons, ← ih]
      constructor
      · rintro ⟨ys, hys⟩
        obtain ⟨y, ys, hy, hrest, rfl⟩ := List.forall₂_cons_left_iff.mp (mapM_eq_ok_iff.mp hys)
        exact ⟨⟨y, hy⟩, ys, mapM_eq_ok_iff.mpr hrest⟩
      · rintro ⟨⟨y, hy⟩, ys, hys⟩
        exact ⟨y :: ys, mapM_eq_ok_iff.mpr (.cons hy (mapM_eq_ok_iff.mp hys))⟩

/-- What a loop returns that raises nothing. -/
theorem map_of_mapM {ε α β : Type*} {f : α → Except ε β} {g : α → β} {xs : List α} {ys : List β}
    (hfg : ∀ x y, f x = .ok y → g x = y) (h : xs.mapM f = .ok ys) : xs.map g = ys := by
  rw [mapM_eq_ok_iff] at h
  induction h with
  | nil => rfl
  | cons hxy _ ih => rw [List.map_cons, hfg _ _ hxy, ih]

theorem bind_eq_ok_iff {ε α : Type*} {r : Except ε α} {f : α → Except ε α} {b : α} :
    r >>= f = .ok b ↔ ∃ a, r = .ok a ∧ f a = .ok b := by
  cases r with
  | error e => exact iff_of_false (fun h => nomatch h) fun ⟨a, ha, _⟩ => nomatch ha
  | ok a =>
      constructor
      · intro h
        exact ⟨a, rfl, h⟩
      · rintro ⟨a', ha, hb⟩
        obtain rfl := Except.ok.inj ha
        exact hb

theorem map_eq_ok_iff {ε α β : Type*} {f : α → β} {r : Except ε α} {b : β} :
    r.map f = .ok b ↔ ∃ a, r = .ok a ∧ f a = b := by
  cases r with
  | error e => exact iff_of_false (fun h => nomatch h) fun ⟨a, ha, _⟩ => nomatch ha
  | ok a =>
      constructor
      · intro h
        exact ⟨a, rfl, Except.ok.inj h⟩
      · rintro ⟨a', ha, rfl⟩
        rw [Except.ok.inj ha]
        rfl

theorem exists_map_iff {ε α β : Type*} {f : α → β} {r : Except ε α} : (∃ b, r.map f = .ok b) ↔ ∃ a, r = .ok a := by
  constructor
  · rintro ⟨b, hb⟩
    obtain ⟨a, ha, -⟩ := map_eq_ok_iff.mp hb
    exact ⟨a, ha⟩
  · rintro ⟨a, ha⟩
    exact ⟨f a, map_eq_ok_iff.mpr ⟨a, ha, rfl⟩⟩

/-! ## The calls of a value -/

section
variable {repr : Json ν → String}

theorem normalizeWrapped_eq (raw : List (String × Json ν)) :
    normalizeWrapped repr raw = (raw.lookup "tool_calls").map (normalizeCalls repr) :=
  eq_map_lookup (by rw [normalizeWrapped]) (fun k v raw => by rw [normalizeWrapped]) raw

/-- **`_normalize_calls` makes one call after the other** of the objects with a name that a value leads to. -/
theorem normalizeCalls_eq_mapM (repr : Json ν → String) (v : Json ν) :
    normalizeCalls repr v = (leaves v).mapM (leafCall repr) := by
  induction v using rec_mem with
  | null => rfl
  | bool b => rfl
  | number n => rfl
  | str s => rfl
  | arr items ih =>
      rw [normalizeCalls, leaves]
      induction items with
      | nil => rfl
      | cons item items ihItems =>
          obtain ⟨hitem, hitems⟩ := List.forall_mem_cons.mp ih
          rw [normalizeItems, leavesItems, List.mapM_append, hitem, ihItems hitems]
  | obj raw ih =>
      rw [normalizeCalls, leaves, normalizeWrapped_eq, leavesWrapped_eq]
      cases hwrap : raw.lookup "tool_calls" with
      | some w => exact ih _ (mem_of_lookup hwrap)
      | none =>
          dsimp only [Option.map_none]
          split
          · rw [List.mapM_cons, List.mapM_nil]
            cases leafCall repr raw with
            | ok call => rfl
            | error e => rfl
          · rfl

end

/-! ## Where nothing is raised -/

section
variable {s text : List Char} {repr : Json ν → String}

theorem number_agrees (s : List Char) :
    Agrees .decodeError (fun e => e ≠ .decodeError) (number (ν := ν) s) (Numeral.scan s) := by
  unfold number
  split
  · exact .inr (by decide)
  · cases Numeral.scan (ν := ν) s with
    | some r => rfl
    | none => exact .fault

theorem loads_agrees (s : List Char) : Agrees .decodeError
    (fun e => e ≠ .decodeError ∧ ∃ u, u <:+ s ∧ number (ν := ν) u = .error e) (loads (ν := ν) s) (Json.loads s) :=
  read_agrees number_agrees s

/-- What is read where nothing is raised. -/
theorem loadsOr_eq_ok {β : Type*} {otherwise b : β} {f : Json ν → Except Fault β} (h : loadsOr s otherwise f = .ok b) :
    (∃ v, Json.loads s = some v ∧ f v = .ok b) ∨ Json.loads (ν := ν) s = none ∧ b = otherwise := by
  have hagrees := loads_agrees (ν := ν) s
  unfold loadsOr at h
  cases hloads : loads (ν := ν) s with
  | ok v =>
      rw [hloads] at h hagrees
      exact .inl ⟨v, hagrees, h⟩
  | error e =>
      rw [hloads] at h hagrees
      cases e with
      | decodeError =>
          rcases hagrees with ⟨-, hnone⟩ | ⟨hne, -⟩
          · exact .inr ⟨hnone, (Except.ok.inj h).symm⟩
          · exact absurd rfl hne
      | valueError => cases h

theorem readArguments_of_ok {args args' : Json ν} (h : readArguments args = .ok args') : Tools.readArguments args = args' := by
  cases args with
  | str s =>
      show (Json.loads s.toList).getD _ = args'
      rcases loadsOr_eq_ok h with ⟨v, hv, hok⟩ | ⟨hnone, rfl⟩
      · rw [hv]
        exact Except.ok.inj hok
      · rw [hnone]
        rfl
  | null | bool | number | arr | obj => exact Except.ok.inj h

theorem normalizeCalls_of_ok {v : Json ν} {calls : List (ToolCall ν)} (h : normalizeCalls repr v = .ok calls) :
    Tools.normalizeCalls repr v = calls := by
  rw [normalizeCalls_eq_mapM] at h
  rw [normalizeCalls_eq_map]
  refine map_of_mapM (fun raw call hcall => ?_) h
  obtain ⟨args, hargs, rfl⟩ := map_eq_ok_iff.mp hcall
  rw [Tools.leafCall, readArguments_of_ok hargs]

theorem jsonCalls_of_ok {calls : List (ToolCall ν)} (h : jsonCalls repr s = .ok calls) : Tools.jsonCalls repr s = calls := by
  unfold Tools.jsonCalls
  rcases loadsOr_eq_ok h with ⟨v, hv, hok⟩ | ⟨hnone, rfl⟩
  · rw [hv]
    exact normalizeCalls_of_ok hok
  · rw [hnone]

theorem lineCall_of_ok {groups : List (List Char)} {calls : List (ToolCall ν)} (h : lineCall groups = .ok calls) :
    Tools.lineCall groups = calls := by
  unfold Tools.lineCall
  rcases loadsOr_eq_ok h with ⟨v, hv, hok⟩ | ⟨hnone, rfl⟩
  · rw [hv]
    cases v with
    | obj args => exact Except.ok.inj hok
    | null | bool | number | str | arr => exact Except.ok.inj hok
  · rw [hnone]

theorem messageCalls_of_ok {calls : List (ToolCall ν)} (h : messageCalls repr s = .ok calls) :
    Tools.messageCalls repr s = calls := by
  unfold messageCalls at h
  unfold Tools.messageCalls
  split
  · next hopen =>
      rw [if_pos hopen] at h
      exact jsonCalls_of_ok h
  · next hclosed =>
      rw [if_neg hclosed] at h
      exact Except.ok.inj h

theorem fencedCalls_of_ok {calls : List (ToolCall ν)} (h : fencedCalls repr text = .ok calls) :
    Tools.fencedCalls repr text = calls := by
  obtain ⟨callss, hcallss, rfl⟩ := map_eq_ok_iff.mp h
  unfold Tools.fencedCalls
  rw [List.flatMap_def, map_of_mapM (fun _ _ => jsonCalls_of_ok) hcallss]

theorem lineCalls_of_ok {calls : List (ToolCall ν)} (h : lineCalls text = .ok calls) : Tools.lineCalls text = calls := by
  obtain ⟨callss, hcallss, rfl⟩ := map_eq_ok_iff.mp h
  unfold Tools.lineCalls
  rw [List.flatMap_def, map_of_mapM (fun _ _ => lineCall_of_ok) hcallss]

/-- **Where nothing is raised, the limit makes no difference.** -/
theorem parseToolCalls_of_ok {calls : List (ToolCall ν)} (h : parseToolCalls repr text = .ok calls) :
    Tools.parseToolCalls repr text = calls := by
  unfold parseToolCalls at h
  unfold Tools.parseToolCalls
  split
  · next hblank =>
      rw [if_pos hblank] at h
      exact Except.ok.inj h
  · next hblank =>
      rw [if_neg hblank] at h
      obtain ⟨message, hmessage, h⟩ := bind_eq_ok_iff.mp h
      obtain ⟨fences, hfences, h⟩ := bind_eq_ok_iff.mp h
      obtain ⟨lines, hlines, h⟩ := bind_eq_ok_iff.mp h
      rw [← Except.ok.inj h, messageCalls_of_ok hmessage, fencedCalls_of_ok hfences, lineCalls_of_ok hlines]

end

end Persola.Tools.Limited
