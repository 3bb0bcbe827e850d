import Persola.Lib.Integers
import Persola.Tools.Extractors

/-!
# `Tools.Wire` — calls written and parsed again

A list of calls is written as JSON alone, as JSON in a fence, or as one `TOOL_CALL` line a call. Alone and in
lines the calls come back whatever their arguments say. In a fence they come back as long as no string of the
arguments closes the fence (`wire_iff`): of a string that does, the fence ends there, and nothing is left of the
calls.
-/

namespace Persola.Tools

open Json Regex

variable {ν : Type*} [Numeral ν]

/-! ## The wire -/

/-- `{"tool_calls": [...]}`. -/
def callsJson (calls : List (ToolCall ν)) : Json ν := .obj [("tool_calls", .arr (calls.map callDict))]

/-- The calls as JSON alone. -/
def written (calls : List (ToolCall ν)) : List Char := dumps (callsJson calls)

/-- The calls as JSON in a fence. -/
def fenced (calls : List (ToolCall ν)) : List Char :=
  backticks ++ (['j', 's', 'o', 'n', '\n'] ++ (written calls ++ '\n' :: backticks))

/-- The `TOOL_CALL` line of a call. -/
def toolLine (call : ToolCall ν) : List Char :=
  lineStart ++ ':' :: ' ' :: (call.name.toList ++ '(' :: (dumps (.obj call.args) ++ [')']))

/-- One line a call. -/
def toolLines : List (ToolCall ν) → List Char
  | [] => []
  | [call] => toolLine call
  | call :: calls => toolLine call ++ '\n' :: toolLines calls

/-- A call that can be written: its name is one, and its arguments are an object. -/
structure WellFormed (call : ToolCall ν) : Prop where
  name_ne : call.name.toList ≠ []
  nameChar_of_mem : ∀ c ∈ call.name.toList, nameChar c
  args : (Json.obj call.args).Valid

/-- The calls are different: not only in the order of keys. -/
def Distinct (calls : List (ToolCall ν)) : Prop :=
  calls.Pairwise fun a b => sortKeys (callDict a) ≠ sortKeys (callDict b)

/-! ## One call -/

section
variable {repr : Json ν → String} {call : ToolCall ν} {calls : List (ToolCall ν)}

omit [Numeral ν] in
theorem WellFormed.dict (h : WellFormed call) : (callDict call).Valid := by
  refine .obj (by simp) fun f hf => ?_
  rcases List.mem_cons.mp hf with rfl | hf
  · exact .str
  · rw [List.mem_singleton.mp hf]
    exact h.args

theorem Distinct.keys (h : Distinct calls) (hcalls : ∀ call ∈ calls, WellFormed call) :
    calls.Pairwise fun a b => callKey a ≠ callKey b := by
  refine List.Pairwise.imp_of_mem ?_ h
  intro a b ha hb hne heq
  exact hne ((hcalls a ha).dict.sortKeys.eq_of_dumps_eq (hcalls b hb).dict.sortKeys heq)

omit [Numeral ν] in
theorem valid_callsJson (hcalls : ∀ call ∈ calls, WellFormed call) : (callsJson calls).Valid := by
  refine .obj (by simp) fun f hf => ?_
  rw [List.mem_singleton.mp hf]
  exact .arr (List.forall_mem_map.mpr fun call hcall => (hcalls call hcall).dict)

theorem normalizeCalls_callDict (repr : Json ν → String) (call : ToolCall ν) :
    normalizeCalls repr (callDict call) = [call] := by
  obtain ⟨name, args⟩ := call
  cases args with
  | nil => rfl
  | cons f args => rfl

theorem normalizeCalls_callsJson (repr : Json ν → String) (calls : List (ToolCall ν)) :
    normalizeCalls repr (callsJson calls) = calls := by
  show normalizeItems repr (calls.map callDict) = calls
  rw [normalizeItems_eq, List.flatMap_map]
  induction calls with
  | nil => rfl
  | cons call calls ih =>
      rw [List.flatMap_cons, normalizeCalls_callDict, ih]
      rfl

/-- The calls that were written are read. -/
theorem jsonCalls_written (hcalls : ∀ call ∈ calls, WellFormed call) : jsonCalls repr (written calls) = calls := by
  unfold jsonCalls written
  rw [loads_dumps (valid_callsJson hcalls)]
  exact normalizeCalls_callsJson repr calls

end

/-! ## The ends of lines -/

section
variable {s x y a w p t : List Char} {c d : Char}

/-- What ends with another character does not end with a parenthesis and spaces. -/
theorem not_line_end (hd : d ≠ ')') (hspace : Py.isSpace d = false) (hw : ∀ c ∈ w, Py.isSpace c) :
    x ++ [d] ≠ a ++ ')' :: w := by
  intro h
  have hlast : (a ++ ')' :: w).getLast? = some d := by rw [← h, List.getLast?_concat]
  rcases List.eq_nil_or_concat w with rfl | ⟨w', c, rfl⟩
  · rw [List.getLast?_concat] at hlast
    exact hd (Option.some.inj hlast).symm
  · have hend : a ++ ')' :: w'.concat c = (a ++ ')' :: w') ++ [c] := by simp
    rw [hend, List.getLast?_concat] at hlast
    have hc := hw c (by simp)
    rw [Option.some.inj hlast, hspace] at hc
    cases hc

/-- A text up to a line end: the first line, or more. -/
theorem lines_split (hx : '\n' ∉ x) (h : x ++ '\n' :: s = p ++ '\n' :: t) :
    p = x ∨ ∃ p', p = x ++ '\n' :: p' ∧ s = p' ++ '\n' :: t := by
  rcases List.append_eq_append_iff.mp h with ⟨p', rfl, hp'⟩ | ⟨p', rfl, hp'⟩
  · rcases List.cons_eq_append_iff.mp hp' with ⟨rfl, -⟩ | ⟨p'', rfl, hs⟩
    · exact .inl (List.append_nil x)
    · exact .inr ⟨p'', rfl, hs⟩
  · rcases List.cons_eq_append_iff.mp hp' with ⟨rfl, -⟩ | ⟨p'', rfl, -⟩
    · exact .inl (List.append_nil p).symm
    · exact absurd (by simp) hx

end

/-! ## JSON alone -/

section
variable {repr : Json ν → String} {calls : List (ToolCall ν)}

theorem pieces_written (calls : List (ToolCall ν)) : Pieces (strings (callsJson calls)) (written calls) :=
  pieces_dumps (callsJson calls)

theorem written_eq (calls : List (ToolCall ν)) : ∃ m, written calls = '{' :: (m ++ ['}']) :=
  dumps_obj [("tool_calls", .arr (calls.map callDict))]

theorem newline_not_mem {s : List Char} {ks : List String} (h : Pieces ks s) : '\n' ∉ s :=
  fun hmem => absurd (h.low _ hmem) (by decide)

/-- A text that is not empty and has no whitespace around it is parsed as it is. -/
theorem parseToolCalls_eq {text : List Char} {c d : Char} {m : List Char} (htext : text = c :: (m ++ [d]))
    (hc : Py.isSpace c = false) (hd : Py.isSpace d = false) : parseToolCalls repr text =
      deduplicate [] (messageCalls repr text ++ fencedCalls repr text ++ lineCalls text) := by
  have hstrip : strip text = text := by
    refine strip_eq_self ?_ ?_
    · rw [htext]
      rintro e ⟨⟩
      rw [hc]
      exact Bool.false_ne_true
    · rw [htext, ← List.cons_append, List.getLast?_concat]
      rintro e ⟨⟩
      rw [hd]
      exact Bool.false_ne_true
  have hne : text ≠ [] := by
    rw [htext]
    exact List.cons_ne_nil _ _
  rw [parseToolCalls, hstrip, if_neg hne]

/-- An object alone says what it says as JSON: the other extractors find nothing in it. -/
theorem parseToolCalls_object (repr : Json ν → String) {raw : List (String × Json ν)}
    (hraw : (Json.obj raw).Valid) :
    parseToolCalls repr (dumps (.obj raw)) = deduplicate [] (normalizeCalls repr (.obj raw)) := by
  obtain ⟨m, hm⟩ := dumps_obj raw
  have hmessage : messageCalls repr (dumps (.obj raw)) = normalizeCalls repr (.obj raw) := by
    have hbrace : (dumps (.obj raw)).head? = some '{' := by rw [hm, List.head?_cons]
    rw [messageCalls, if_pos (.inl hbrace), jsonCalls, loads_dumps hraw]
  have hfence : fencedCalls repr (dumps (.obj raw)) = [] := by
    refine fencedCalls_eq_nil fun u hu => .inl ?_
    have hframes := (tick_mark.dumps (.obj raw) [] .nil).2 u
    rw [List.append_nil] at hframes
    rcases hframes hu with hnil | hquoted
    · exact absurd (List.suffix_nil.mp hnil) (List.cons_ne_nil _ _)
    · exact hquoted
  have hline : lineCalls (dumps (.obj raw)) = ([] : List (ToolCall ν)) := by
    refine lineCalls_eq_nil fun a w t htext hw ht => ?_
    cases t with
    | nil =>
        rw [hm, List.append_nil, ← List.cons_append] at htext
        exact not_line_end (by decide) (by decide) hw htext
    | cons c t =>
        refine newline_not_mem (pieces_dumps (.obj raw)) ?_
        rw [htext, ht c rfl]
        simp
  rw [parseToolCalls_eq hm (by decide) (by decide), hmessage, hfence, hline, List.append_nil, List.append_nil]

/-- **JSON alone**: the calls come back. -/
theorem parseToolCalls_written (hcalls : ∀ call ∈ calls, WellFormed call) (hdistinct : Distinct calls) :
    parseToolCalls repr (written calls) = calls := by
  have hparse := parseToolCalls_object repr (valid_callsJson hcalls)
  have hcalls' : normalizeCalls repr (.obj [("tool_calls", .arr (calls.map callDict))]) = calls :=
    normalizeCalls_callsJson repr calls
  rw [hcalls', deduplicate_eq_self (fun _ _ => List.not_mem_nil) (hdistinct.keys hcalls)] at hparse
  exact hparse

end

/-! ## JSON in a fence -/

section
variable {repr : Json ν → String} {calls : List (ToolCall ν)} {m m' w t : List Char}

omit [Numeral ν] in
theorem mem_strings_callsJson {k : String} : k ∈ strings (callsJson calls) ↔ k = "tool_calls" ∨
    ∃ call ∈ calls, k = "name" ∨ k = call.name ∨ k = "args" ∨ k ∈ strings (.obj call.args) := by
  have hitems : k ∈ stringsItems (calls.map callDict) ↔
      ∃ call ∈ calls, k = "name" ∨ k = call.name ∨ k = "args" ∨ k ∈ strings (.obj call.args) := by
    induction calls with
    | nil => simp [stringsItems]
    | cons call calls ih =>
        rw [List.map_cons, stringsItems, List.mem_append, ih, List.exists_mem_cons_iff]
        simp [callDict, strings, stringsFields]
  simp [callsJson, strings, stringsFields, hitems]

omit [Numeral ν] in
/-- Only the arguments can close a fence. -/
theorem cut_of_mem_strings (hcalls : ∀ call ∈ calls, WellFormed call) {k : String}
    (hk : k ∈ strings (callsJson calls)) (hcut : Cut k.toList) :
    ∃ call ∈ calls, ∃ k ∈ strings (.obj call.args), Cut k.toList := by
  have hbrace : '}' ∈ k.toList := by
    obtain ⟨a, w, b, hsplit, -⟩ := hcut
    simp [hsplit]
  rcases mem_strings_callsJson.mp hk with rfl | ⟨call, hcall, rfl | rfl | rfl | hargs⟩
  · exact absurd hbrace (by decide)
  · exact absurd hbrace (by decide)
  · exact absurd ((hcalls call hcall).nameChar_of_mem _ hbrace) (by decide)
  · exact absurd hbrace (by decide)
  · exact ⟨call, hcall, k, hargs, hcut⟩

/-- The first end of a fence comes with the end of the value, or earlier in it. -/
theorem closing_cases (hw : ∀ c ∈ w, Py.isSpace c) (hlength : m'.length ≤ m.length)
    (h : m ++ '}' :: ('\n' :: backticks) = m' ++ '}' :: (w ++ (backticks ++ t))) :
    m' = m ∧ t = [] ∨ ∃ y, '{' :: (m ++ ['}']) = ('{' :: m') ++ '}' :: (w ++ tick :: y) ∧
      y ++ '\n' :: backticks = tick :: tick :: t := by
  obtain ⟨e, rfl⟩ : m' <+: m := List.prefix_of_prefix_length_le ⟨_, h.symm⟩ ⟨_, rfl⟩ hlength
  rw [List.append_assoc] at h
  have htail := List.append_cancel_left h
  cases e with
  | nil =>
      left
      have htail : '\n' :: [tick, tick, tick] = w ++ ([tick, tick, tick] ++ t) := (List.cons.inj htail).2
      have hlengths := congrArg List.length htail
      simp only [List.length_cons, List.length_append, List.length_nil] at hlengths
      refine ⟨(List.append_nil m').symm, ?_⟩
      cases w with
      | nil => exact absurd (List.cons.inj htail).1 (by decide)
      | cons c w =>
          rw [List.length_cons] at hlengths
          exact List.length_eq_zero_iff.mp (by omega)
  | cons c e =>
      right
      obtain ⟨rfl, hrest⟩ := List.cons.inj htail
      -- the backticks are in the value, as the spaces cannot reach over its end
      rcases List.append_eq_append_iff.mp hrest with ⟨f, rfl, hf⟩ | ⟨f, rfl, hf⟩
      · rcases List.cons_eq_append_iff.mp hf with ⟨-, heq⟩ | ⟨f', rfl, -⟩
        · exact absurd (List.cons.inj heq).1 (by decide)
        · exact absurd rfl (space_ne (hw '}' (by simp))).2.2.1
      · rcases List.cons_eq_append_iff.mp hf with ⟨-, heq⟩ | ⟨f', rfl, hticks⟩
        · exact absurd (List.cons.inj heq).1 (by decide)
        · exact ⟨f' ++ ['}'], by simp, by simpa using hticks.symm⟩

/-- The calls of the first fence are all there are, and it ends where an end is first possible. -/
theorem fencedCalls_fenced (repr : Json ν → String)
    (h : written calls ++ '\n' :: backticks = '{' :: (m ++ '}' :: (w ++ (backticks ++ t))))
    (hw : ∀ c ∈ w, Py.isSpace c) : ∃ m' w' t',
      written calls ++ '\n' :: backticks = '{' :: (m' ++ '}' :: (w' ++ (backticks ++ t'))) ∧
      m'.length ≤ m.length ∧ (∀ c ∈ w', Py.isSpace c) ∧
      fencedCalls repr (fenced calls) = jsonCalls repr ('{' :: (m' ++ ['}'])) := by
  obtain ⟨m', w', t', happend, hlength, hw', hhead⟩ := head?_fence (m := m) (t := t) hw
  have htext : fenced calls =
      backticks ++ (['j', 's', 'o', 'n', '\n'] ++ '{' :: (m ++ '}' :: (w ++ (backticks ++ t)))) := by
    rw [fenced, h]
  have hshorter : t'.length < (fenced calls).length := by
    rw [htext, happend]
    simp only [List.length_append, List.length_cons]
    omega
  rw [happend] at h
  -- what is left behind the first fence says nothing
  have hrest : fencedCalls repr t' = [] := by
    refine fencedCalls_eq_nil fun u hu => ?_
    have hbehind : t' <:+ written calls ++ '\n' :: backticks := by
      refine ⟨'{' :: (m' ++ '}' :: (w' ++ backticks)), ?_⟩
      rw [h]
      simp
    rcases (tick_mark.dumps (callsJson calls) ('\n' :: backticks) (.control (by decide))).2 u
      (hu.trans hbehind) with hend | hquoted
    · exact .inr fun hmem => absurd (hend.subset (List.mem_cons_of_mem tick hmem)) (by decide)
    · exact .inl hquoted
  refine ⟨m', w', t', h, hlength, hw', ?_⟩
  rw [fencedCalls_match (htext ▸ hhead) hshorter, hrest, List.append_nil]
  rfl

theorem lineCalls_fenced (calls : List (ToolCall ν)) : lineCalls (fenced calls) = ([] : List (ToolCall ν)) := by
  obtain ⟨m, hm⟩ := written_eq calls
  refine lineCalls_eq_nil fun a w t htext hw ht => ?_
  cases t with
  | nil =>
      have hend : (backticks ++ (['j', 's', 'o', 'n', '\n'] ++ (written calls ++ ['\n', tick, tick]))) ++ [tick] =
          a ++ ')' :: w := by
        rw [List.append_nil] at htext
        rw [← htext]
        simp [fenced, backticks]
      exact not_line_end (by decide) (by decide) hw hend
  | cons c t =>
      rw [ht c rfl] at htext
      -- the line that ends here is the first one, or the JSON
      have hlines : (backticks ++ ['j', 's', 'o', 'n']) ++ '\n' :: (written calls ++ '\n' :: backticks) =
          (a ++ ')' :: w) ++ '\n' :: t := by
        rw [List.append_assoc a, List.cons_append, ← htext, fenced]
        simp
      rcases lines_split (by decide) hlines with hfirst | ⟨p, hp, hrest⟩
      · have hmem : ')' ∈ backticks ++ ['j', 's', 'o', 'n'] := by
          rw [← hfirst]
          simp
        exact absurd hmem (by decide)
      rcases lines_split (newline_not_mem (pieces_written calls)) hrest with rfl | ⟨q, -, hlast⟩
      · have hend : ((backticks ++ ['j', 's', 'o', 'n']) ++ '\n' :: '{' :: m) ++ ['}'] = a ++ ')' :: w := by
          rw [hp, hm]
          simp
        exact not_line_end (by decide) (by decide) hw hend
      · have hmem : '\n' ∈ backticks := by
          rw [hlast]
          simp
        exact absurd hmem (by decide)

/-- Around a fence there is nothing else to find. -/
theorem parseToolCalls_fenced_eq (repr : Json ν → String) (calls : List (ToolCall ν)) :
    parseToolCalls repr (fenced calls) = deduplicate [] (fencedCalls repr (fenced calls)) := by
  have hends : fenced calls = tick :: ((tick :: tick :: (['j', 's', 'o', 'n', '\n'] ++
      (written calls ++ ['\n', tick, tick]))) ++ [tick]) := by
    simp [fenced, backticks]
  have hmessage : messageCalls repr (fenced calls) = [] := by
    rw [hends]
    exact messageCalls_of_head (by decide) (by decide)
  rw [parseToolCalls_eq hends (by decide) (by decide), hmessage, lineCalls_fenced, List.nil_append,
    List.append_nil]

/-- **A string that closes the fence**: what the fence encloses then is not JSON, and the calls are lost. -/
theorem parseToolCalls_of_cut {k : String} (hk : k ∈ strings (callsJson calls)) (hcut : Cut k.toList) :
    parseToolCalls repr (fenced calls) = [] := by
  obtain ⟨m, hm⟩ := written_eq calls
  obtain ⟨x, w, y, hclosing, hw⟩ := closing_of_cut (pieces_written calls) hk hcut
  obtain ⟨x, rfl⟩ : ∃ x', x = '{' :: x' := by
    cases x with
    | nil =>
        rw [hm] at hclosing
        exact absurd (List.cons.inj hclosing).1 (by decide)
    | cons c x =>
        rw [hm] at hclosing
        exact ⟨x, by rw [(List.cons.inj hclosing).1]⟩
  obtain ⟨m', w', t', happend, hlength, hw', hfence⟩ :=
    fencedCalls_fenced (m := x) (t := y ++ '\n' :: backticks) repr (by rw [hclosing]; simp) hw
  rw [hm] at hclosing happend
  have hshorter : m'.length < m.length := by
    have htail : m ++ ['}'] = x ++ '}' :: (w ++ (backticks ++ y)) := (List.cons.inj hclosing).2
    have hlengths := congrArg List.length htail
    simp only [backticks, List.length_append, List.length_cons, List.length_nil] at hlengths
    omega
  rcases closing_cases hw' hshorter.le (by simpa using happend) with ⟨rfl, -⟩ | ⟨z, hvalue, -⟩
  · exact absurd hshorter (Nat.lt_irrefl _)
  · obtain ⟨-, -, -, -, -, -, -, -, hinside⟩ := of_closing (pieces_written calls) (hm.trans hvalue) hw'
    rw [parseToolCalls_fenced_eq, hfence, jsonCalls, ← List.cons_append, loads_of_inside hinside]
    rfl

/-- **JSON in a fence**: the calls come back if no string of the arguments closes the fence. -/
theorem parseToolCalls_fenced (hcalls : ∀ call ∈ calls, WellFormed call) (hdistinct : Distinct calls)
    (hintact : ∀ call ∈ calls, ∀ k ∈ strings (.obj call.args), ¬ Cut k.toList) :
    parseToolCalls repr (fenced calls) = calls := by
  obtain ⟨m, hm⟩ := written_eq calls
  obtain ⟨m', w', t', happend, hlength, hw', hfence⟩ := fencedCalls_fenced (m := m) (w := ['\n']) (t := []) repr
    (by rw [hm]; simp) (List.forall_mem_singleton.mpr (by decide))
  rw [hm] at happend
  rcases closing_cases hw' hlength (by simpa using happend) with ⟨rfl, -⟩ | ⟨y, hvalue, hy⟩
  · rw [parseToolCalls_fenced_eq, hfence, ← hm, jsonCalls_written hcalls]
    exact deduplicate_eq_self (fun _ _ => List.not_mem_nil) (hdistinct.keys hcalls)
  · obtain ⟨k, hk, hcut⟩ := cut_of_closing (pieces_written calls) (hm.trans hvalue) hw' hy
    obtain ⟨call, hcall, k, hk, hcut⟩ := cut_of_mem_strings hcalls hk hcut
    exact absurd hcut (hintact call hcall k hk)

end

/-! ## One line a call -/

section
variable {repr : Json ν → String} {call : ToolCall ν} {calls : List (ToolCall ν)} {s : List Char}

theorem lineCall_written (h : WellFormed call) :
    lineCall [call.name.toList, dumps (.obj call.args)] = [call] := by
  have hargs : loads ([call.name.toList, dumps (.obj call.args)].getD 1 []) = some (.obj call.args) :=
    loads_dumps h.args
  rw [lineCall, hargs]
  show [⟨String.ofList call.name.toList, call.args⟩] = [call]
  rw [String.ofList_toList]

/-- The call of a line, and those of the next lines. -/
theorem lineCalls_toolLine (h : WellFormed call) (hs : LineEnds s) :
    lineCalls (toolLine call ++ s) = call :: lineCalls s := by
  obtain ⟨m, hm⟩ := dumps_obj call.args
  have hpieces : Pieces _ (dumps (.obj call.args)) := pieces_dumps (.obj call.args)
  have hbody : ∀ c ∈ m, (c != '\n') = true := by
    intro c hc
    rw [bne_iff_ne]
    rintro rfl
    exact newline_not_mem hpieces (by simp [hm, hc])
  have hhead := head?_toolLine h.nameChar_of_mem h.name_ne hbody hs
  have htext : toolLine call ++ s = lineStart ++ ([':'] ++ ([' '] ++ (call.name.toList ++ (['('] ++
      (['{'] ++ (m ++ '}' :: ([')'] ++ s))))))) := by
    rw [toolLine, hm]
    simp only [List.append_assoc, List.cons_append, List.nil_append]
  rw [← htext] at hhead
  have hshorter : s.length < (toolLine call ++ s).length := by
    rw [htext]
    simp only [List.length_append, List.length_cons]
    omega
  unfold lineCalls
  rw [Regex.finditer_match hhead hshorter, List.flatMap_cons]
  have hgroup : ['{'] ++ (m ++ ['}']) = dumps (.obj call.args) := hm.symm
  rw [hgroup, lineCall_written h]
  rfl

theorem lineCalls_newline : lineCalls ('\n' :: s) = (lineCalls s : List (ToolCall ν)) := by
  unfold lineCalls
  rw [Regex.finditer_of_no_match]
  rfl

/-- The lines start and end with characters that are no whitespace. -/
theorem toolLines_eq (call : ToolCall ν) (calls : List (ToolCall ν)) :
    ∃ m, toolLines (call :: calls) = 'T' :: (m ++ [')']) := by
  induction calls generalizing call with
  | nil => exact ⟨lineStart.tail ++ ':' :: ' ' :: (call.name.toList ++ '(' :: dumps (.obj call.args)),
      by simp [toolLines, toolLine, lineStart]⟩
  | cons next calls ih =>
      obtain ⟨m, hm⟩ := ih next
      refine ⟨lineStart.tail ++ ':' :: ' ' :: (call.name.toList ++ '(' :: (dumps (.obj call.args) ++
        ')' :: '\n' :: 'T' :: m)), ?_⟩
      rw [toolLines, hm]
      · simp [toolLine, lineStart]
      · exact List.cons_ne_nil _ _

theorem lineCalls_toolLines (hcalls : ∀ call ∈ calls, WellFormed call) : lineCalls (toolLines calls) = calls := by
  induction calls with
  | nil => rfl
  | cons call calls ih =>
      obtain ⟨hcall, hcalls⟩ := List.forall_mem_cons.mp hcalls
      cases calls with
      | nil =>
          have hline := lineCalls_toolLine hcall (.inl rfl)
          rw [List.append_nil] at hline
          exact hline
      | cons next calls =>
          obtain ⟨m, hm⟩ := toolLines_eq next calls
          have hends : LineEnds ('\n' :: toolLines (next :: calls)) := .inr ⟨'T', _, by rw [hm], by decide⟩
          rw [toolLines, lineCalls_toolLine hcall hends, lineCalls_newline, ih hcalls]
          exact List.cons_ne_nil _ _

theorem suffix_of_not_mem {a u : List Char} {b : Char} (hb : b ∉ a) (h : b :: u <:+ a ++ s) : b :: u <:+ s := by
  induction a with
  | nil => exact h
  | cons c a ih =>
      rw [List.mem_cons, not_or] at hb
      rcases List.suffix_cons_iff.mp h with heq | h
      · exact absurd (List.cons.inj heq).1 hb.1
      · exact ih hb.2 h

/-- In a line all backticks are inside quotations. -/
theorem quoted_toolLine (hcall : WellFormed call) (hs : Quoted Keyless false s)
    (hbehind : ∀ u, tick :: u <:+ s → Quoted Keyless true (tick :: u)) :
    ∀ u, tick :: u <:+ toolLine call ++ s → Quoted Keyless true (tick :: u) := by
  intro u hu
  have htext : toolLine call ++ s =
      (lineStart ++ ':' :: ' ' :: (call.name.toList ++ ['('])) ++ (dumps (.obj call.args) ++ ')' :: s) := by
    rw [toolLine]
    simp only [List.append_assoc, List.cons_append, List.nil_append]
  have hstart : tick ∉ lineStart ++ ':' :: ' ' :: (call.name.toList ++ ['(']) := by
    have hname : tick ∉ call.name.toList := fun hmem => absurd (hcall.nameChar_of_mem tick hmem) (by decide)
    have hword : tick ∉ lineStart := by decide
    have hothers : tick ≠ ':' ∧ tick ≠ ' ' ∧ tick ≠ '(' := by decide
    simp only [List.mem_append, List.mem_cons, List.not_mem_nil, or_false, not_or]
    exact ⟨hword, hothers.1, hothers.2.1, hname, hothers.2.2⟩
  have hparen : Quoted Keyless false (')' :: s) :=
    .plain (by simp [Keyless]) (by decide) (by decide) (by decide) hs
  rw [htext] at hu
  rcases (tick_mark.dumps (.obj call.args) (')' :: s) hparen).2 u
    (suffix_of_not_mem hstart hu) with hend | hquoted
  · rcases List.suffix_cons_iff.mp hend with heq | hend
    · exact absurd (List.cons.inj heq).1 (by decide)
    · exact hbehind u hend
  · exact hquoted

/-- In the lines all backticks are inside quotations, whose ends are on their line. -/
theorem quoted_toolLines (hcalls : ∀ call ∈ calls, WellFormed call) :
    ∀ u, tick :: u <:+ toolLines calls → Quoted Keyless true (tick :: u) := by
  induction calls with
  | nil => exact fun u hu => absurd (List.suffix_nil.mp hu) (List.cons_ne_nil _ _)
  | cons call calls ih =>
      obtain ⟨hcall, hcalls⟩ := List.forall_mem_cons.mp hcalls
      cases calls with
      | nil =>
          have hlast := quoted_toolLine hcall .nil fun u hu => absurd (List.suffix_nil.mp hu) (List.cons_ne_nil _ _)
          rw [List.append_nil] at hlast
          exact hlast
      | cons next calls =>
          apply quoted_toolLine hcall (.control (by decide))
          intro u hu
          rcases List.suffix_cons_iff.mp hu with heq | hu
          · exact absurd (List.cons.inj heq).1 (by decide)
          · exact ih hcalls u hu

/-- **One line a call**: the calls come back. -/
theorem parseToolCalls_toolLines (hcalls : ∀ call ∈ calls, WellFormed call) (hdistinct : Distinct calls) :
    parseToolCalls repr (toolLines calls) = calls := by
  cases calls with
  | nil =>
      have hempty : strip (toolLines ([] : List (ToolCall ν))) = [] :=
        strip_eq_self (by rintro c ⟨⟩) (by rintro c ⟨⟩)
      rw [parseToolCalls, if_pos hempty]
  | cons call calls =>
      obtain ⟨m, hm⟩ := toolLines_eq call calls
      have hmessage : messageCalls repr (toolLines (call :: calls)) = [] := by
        rw [hm]
        exact messageCalls_of_head (by decide) (by decide)
      have hfence : fencedCalls repr (toolLines (call :: calls)) = [] :=
        fencedCalls_eq_nil fun u hu => .inl (quoted_toolLines hcalls u hu)
      rw [parseToolCalls_eq hm (by decide) (by decide), hmessage, hfence, lineCalls_toolLines hcalls]
      exact deduplicate_eq_self (fun _ _ => List.not_mem_nil) (hdistinct.keys hcalls)

end

/-! ## The wire -/

section
variable {calls : List (ToolCall ν)}

/-- **Calls survive the wire** exactly when no string of their arguments closes a fence: one that has the end of
    an object and a fence in it, with at most spaces between. -/
theorem wire_iff (repr : Json ν → String) (hcalls : ∀ call ∈ calls, WellFormed call) (hdistinct : Distinct calls) :
    (parseToolCalls repr (written calls) = calls ∧ parseToolCalls repr (fenced calls) = calls ∧
      parseToolCalls repr (toolLines calls) = calls) ↔
      ∀ call ∈ calls, ∀ k ∈ strings (.obj call.args), ¬ Cut k.toList := by
  constructor
  · rintro ⟨-, hfenced, -⟩ call hcall k hk hcut
    have hk' : k ∈ strings (callsJson calls) := mem_strings_callsJson.mpr (.inr ⟨call, hcall, by simp [hk]⟩)
    rw [parseToolCalls_of_cut hk' hcut] at hfenced
    rw [← hfenced] at hcall
    cases hcall
  · intro hintact
    exact ⟨parseToolCalls_written hcalls hdistinct, parseToolCalls_fenced hcalls hdistinct hintact,
      parseToolCalls_toolLines hcalls hdistinct⟩

end

omit [Numeral ν] in
/-- A call with one text is well formed. -/
theorem wellFormed_text {name key text : String} (hne : name.toList ≠ []) (hname : ∀ c ∈ name.toList, nameChar c) :
    WellFormed (ν := ν) ⟨name, [(key, .str text)]⟩ := by
  refine ⟨hne, hname, .obj (List.nodup_singleton _) fun f hf => ?_⟩
  rw [List.mem_singleton.mp hf]
  exact .str

/-- Two calls without a brace. -/
def plainCalls : List (ToolCall ℤ) :=
  [⟨"workspace_list", [("path", .str ".")]⟩, ⟨"workspace_read", [("path", .str "a.md")]⟩]

theorem wire_plainCalls : parseToolCalls (fun _ => "") (written plainCalls) = plainCalls ∧
    parseToolCalls (fun _ => "") (fenced plainCalls) = plainCalls ∧
    parseToolCalls (fun _ => "") (toolLines plainCalls) = plainCalls := by
  have hcalls : ∀ call ∈ plainCalls, WellFormed call := by
    refine List.forall_mem_cons.mpr ⟨?_, List.forall_mem_singleton.mpr ?_⟩
    · exact wellFormed_text (by decide) (List.all_iff_forall_prop.mp (by decide))
    · exact wellFormed_text (by decide) (List.all_iff_forall_prop.mp (by decide))
  have hdistinct : Distinct plainCalls := by
    refine List.pairwise_pair.mpr fun heq => ?_
    have hkeys := congrArg dumps heq
    revert hkeys
    decide +kernel
  have hbrace : ∀ call ∈ plainCalls, ∀ k ∈ strings (.obj call.args), '}' ∉ k.toList := by decide +kernel
  refine (wire_iff (fun _ => "") hcalls hdistinct).mpr ?_
  rintro call hcall k hk ⟨a, w, b, hsplit, -⟩
  exact hbrace call hcall k hk (by simp [hsplit])

/-- A text that closes the fence, as a template or a code block may. -/
def cutCall : ToolCall ℤ := ⟨"workspace_write", [("content", .str "\x7d```")]⟩

theorem cutCall_lost : (∀ call ∈ [cutCall], WellFormed call) ∧ Distinct [cutCall] ∧
    parseToolCalls (fun _ => "") (fenced [cutCall]) ≠ [cutCall] := by
  have hparse : parseToolCalls (fun _ => "") (fenced [cutCall]) = ([] : List (ToolCall ℤ)) := by decide +kernel
  have hcut : WellFormed cutCall := wellFormed_text (by decide) (List.all_iff_forall_prop.mp (by decide))
  refine ⟨List.forall_mem_singleton.mpr hcut, List.pairwise_singleton _ _, ?_⟩
  rw [hparse]
  exact (List.cons_ne_nil _ _).symm

end Persola.Tools
