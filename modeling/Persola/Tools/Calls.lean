import Persola.Lib.Json
import Persola.Lib.Regex
import Persola.Tools.Registry

/-!
# `Tools.Calls` — the tool calls of a text

`parse_tool_calls` runs three extractors over a text (the whole message as JSON, fenced JSON blocks, and
`TOOL_CALL` lines) and drops what it has seen before. Here an integer may have any number of digits; where Python
refuses one, `Tools.Limited` says what is raised, and returns what is returned here otherwise.

`repr` shows a name that is no text.
-/

namespace Persola.Tools

open Json

variable {ν : Type*} [Numeral ν]

/-- A call as it is returned: a name, and keyword arguments. -/
abbrev ToolCall (ν : Type*) := Call (List (String × Json ν))

/-! ## `_normalize_calls` -/

section
variable (repr : Json ν → String)

/-- `str(name)`. -/
def nameText : Json ν → String
  | .str s => s
  | v => repr v

/-- `raw.get("args") or raw.get("arguments") or {}`. -/
def arguments (raw : List (String × Json ν)) : Json ν :=
  Json.orElse (raw.lookup "args") (Json.orElse (raw.lookup "arguments") (.obj []))

/-- Arguments that are a text are read as JSON. -/
def readArguments : Json ν → Json ν
  | .str s => (loads s.toList).getD (.obj [("value", .str s)])
  | args => args

/-- `args if isinstance(args, dict) else {}`. -/
def dictOf : Json ν → List (String × Json ν)
  | .obj args => args
  | _ => []

mutual

/-- `_normalize_calls`. -/
def normalizeCalls : Json ν → List (ToolCall ν)
  | .obj raw =>
      match normalizeWrapped raw with
      | some calls => calls
      | none =>
          match raw.lookup "name" with
          | some name => [⟨nameText repr name, dictOf (readArguments (arguments raw))⟩]
          | none => []
  | .arr items => normalizeItems items
  | _ => []

/-- `_normalize_calls(raw["tool_calls"])`, if there is that key. -/
def normalizeWrapped : List (String × Json ν) → Option (List (ToolCall ν))
  | [] => none
  | (k, v) :: raw => if k = "tool_calls" then some (normalizeCalls v) else normalizeWrapped raw

/-- The calls of the items, one after the other. -/
def normalizeItems : List (Json ν) → List (ToolCall ν)
  | [] => []
  | item :: items => normalizeCalls item ++ normalizeItems items

end

/-- Looking for a key field by field is looking it up. -/
theorem eq_map_lookup {κ β : Type*} {key : String} {g : κ → β} {f : List (String × κ) → Option β} (hnil : f [] = none)
    (hcons : ∀ k v raw, f ((k, v) :: raw) = if k = key then some (g v) else f raw) (raw : List (String × κ)) :
    f raw = (raw.lookup key).map g := by
  induction raw with
  | nil => exact hnil
  | cons field raw ih =>
      obtain ⟨k, v⟩ := field
      rw [hcons, List.lookup_cons]
      by_cases hk : k = key
      · rw [if_pos hk, beq_iff_eq.mpr hk.symm]
        rfl
      · rw [if_neg hk, ih, beq_eq_false_iff_ne.mpr (Ne.symm hk)]

theorem normalizeWrapped_eq (raw : List (String × Json ν)) :
    normalizeWrapped repr raw = (raw.lookup "tool_calls").map (normalizeCalls repr) :=
  eq_map_lookup (by rw [normalizeWrapped]) (fun k v raw => by rw [normalizeWrapped]) raw

theorem normalizeItems_eq (items : List (Json ν)) :
    normalizeItems repr items = items.flatMap (normalizeCalls repr) := by
  induction items with
  | nil => rfl
  | cons item items ih =>
      rw [normalizeItems, ih]
      rfl

end

/-! ## `parse_tool_calls` -/

/-- A backtick. -/
def tick : Char := Char.ofNat 96

/-- The characters of a fence. -/
def backticks : List Char := [tick, tick, tick]

/-- A letter of a pattern with `re.IGNORECASE`; the long s is a small s to it. -/
def letter (c : Char) : Regex := .char fun d => d.toLower == c || c == 's' && d == Char.ofNat 0x17f

/-- The characters of a tool's name. -/
def nameChar (c : Char) : Bool := c.isAlphanum || c == '_'

/-- `_FENCE_RE`. -/
def fenceRe : Regex :=
  Regex.concat [.lit backticks, .maybe (Regex.concat (['j', 's', 'o', 'n'].map letter)), .many Py.isSpace,
    .group (Regex.concat [.lit ['{'], .fewest fun _ => true, .lit ['}']]), .many Py.isSpace, .lit backticks]

/-- The word that a line with a call starts with. -/
def lineStart : List Char := ['T', 'O', 'O', 'L', '_', 'C', 'A', 'L', 'L']

/-- `_TOOL_LINE_RE`. -/
def toolLineRe : Regex :=
  Regex.concat [.lit lineStart, .many Py.isSpace, .lit [':'], .many Py.isSpace,
    .group (.plus nameChar), .many Py.isSpace, .lit ['('], .many Py.isSpace,
    .group (Regex.concat [.lit ['{'], .many (· != '\n'), .lit ['}']]), .many Py.isSpace, .lit [')'],
    .many Py.isSpace, .lineEnd]

section
variable (repr : Json ν → String)

/-- `calls.extend(_normalize_calls(json.loads(text)))`, or nothing for a text that is not JSON. -/
def jsonCalls (text : List Char) : List (ToolCall ν) :=
  match loads text with
  | some raw => normalizeCalls repr raw
  | none => []

/-- Whole-message JSON. -/
def messageCalls (stripped : List Char) : List (ToolCall ν) :=
  if stripped.head? = some '{' ∨ stripped.head? = some '[' then jsonCalls repr stripped else []

/-- Fenced blocks. -/
def fencedCalls (text : List Char) : List (ToolCall ν) :=
  (Regex.finditer fenceRe 0 text).flatMap fun groups => jsonCalls repr (groups.getD 0 [])

end

/-- The call of a `TOOL_CALL` line: with arguments that are not JSON the name is kept, with arguments that are
    no object the line is dropped. -/
def lineCall (groups : List (List Char)) : List (ToolCall ν) :=
  match loads (groups.getD 1 []) with
  | none => [⟨String.ofList (groups.getD 0 []), []⟩]
  | some (.obj args) => [⟨String.ofList (groups.getD 0 []), args⟩]
  | some _ => []

/-- `TOOL_CALL` lines. -/
def lineCalls (text : List Char) : List (ToolCall ν) := (Regex.finditer toolLineRe 0 text).flatMap lineCall

/-- The call as a dictionary. -/
def callDict (call : ToolCall ν) : Json ν := .obj [("name", .str call.name), ("args", .obj call.args)]

/-- `json.dumps(call, sort_keys=True)`. -/
def callKey (call : ToolCall ν) : List Char := dumps (sortKeys (callDict call))

/-- Drop the calls seen before. -/
def deduplicate (seen : List (List Char)) : List (ToolCall ν) → List (ToolCall ν)
  | [] => []
  | call :: calls =>
      if callKey call ∈ seen then deduplicate seen calls
      else call :: deduplicate (callKey call :: seen) calls

/-- `text.strip()`. -/
def strip (text : List Char) : List Char := (Py.strip (String.ofList text)).toList

/-- `parse_tool_calls`. -/
def parseToolCalls (repr : Json ν → String) (text : List Char) : List (ToolCall ν) :=
  if strip text = [] then []
  else deduplicate [] (messageCalls repr (strip text) ++ fencedCalls repr text ++ lineCalls text)

/-! ## What the parser keeps -/

section
variable {calls : List (ToolCall ν)} {text s : List Char} {c : Char} {seen : List (List Char)}

theorem strip_eq_self (hhead : ∀ c ∈ text.head?, ¬ Py.isSpace c) (hlast : ∀ c ∈ text.getLast?, ¬ Py.isSpace c) :
    strip text = text :=
  Py.strip_eq_self_iff.mpr
    ⟨fun c hc => Bool.eq_false_iff.mpr (hhead c hc), fun c hc => Bool.eq_false_iff.mpr (hlast c hc)⟩

/-- Calls that are not seen before and pairwise different are kept. -/
theorem deduplicate_eq_self (hseen : ∀ call ∈ calls, callKey call ∉ seen)
    (hcalls : calls.Pairwise fun a b => callKey a ≠ callKey b) : deduplicate seen calls = calls := by
  induction calls generalizing seen with
  | nil => rfl
  | cons call calls ih =>
      obtain ⟨hcall, hrest⟩ := List.pairwise_cons.mp hcalls
      obtain ⟨hnew, hseen⟩ := List.forall_mem_cons.mp hseen
      show (if callKey call ∈ seen then _ else call :: deduplicate (callKey call :: seen) calls) = _
      rw [if_neg hnew, ih ?_ hrest]
      intro other hother hmem
      rcases List.mem_cons.mp hmem with heq | hmem
      · exact hcall other hother heq.symm
      · exact hseen other hother hmem

end

end Persola.Tools
