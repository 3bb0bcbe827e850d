import Persola.Analysis.Extractor

/-!
# `Analysis.Extraction` — when the extraction does not fail

Every piece of a response is left out, usable or fatal, which is a matter of what it decodes to. The extraction is
safe exactly if the first piece that is not left out is usable, in the first response and, where all of that is left
out, in the second.
-/

namespace Persola.Analysis

variable {py : Conversions} {chars : Characters} {llm : PersolaLLM} {text c : String} {cs : List String}

/-! ## Values -/

/-- The value cannot be converted: it is refused, or an integer that is too large. `None` stands for the default. -/
def faulty (py : Conversions) : Json Number → Bool
  | .null => false
  | value => value.refused py.float || value.overflows

/-- The first value that cannot be converted. -/
def firstFault (py : Conversions) (rs : List Reading) : Option Reading := rs.find? fun r => faulty py r.value

theorem faulty_of_firstFault {rs : List Reading} {r : Reading} (h : firstFault py rs = some r) :
    faulty py r.value := by
  have hr := List.find?_some h
  exact hr

theorem normalize_eq {value : Json Number} (hnull : value ≠ .null) (default : ℚ) :
    py.normalize value default = (value.toFloat py.float).map clampFloat := by
  unfold Conversions.normalize
  split
  · exact absurd rfl hnull
  · rfl

theorem faulty_eq {value : Json Number} (hnull : value ≠ .null) :
    faulty py value = (value.refused py.float || value.overflows) := by
  unfold faulty
  split
  · exact absurd rfl hnull
  · rfl

theorem ne_null_of_faulty {value : Json Number} (h : faulty py value) : value ≠ .null := by
  rintro rfl
  cases h

/-- What can be converted is clamped. -/
theorem normalize_fine {value : Json Number} (h : faulty py value = false) (default : ℚ) :
    ∃ x, py.normalize value default = .ok x ∧ 0 ≤ x ∧ x ≤ 1 := by
  by_cases hnull : value = .null
  · exact ⟨clamp default, by rw [hnull, Conversions.normalize], clamp_range default⟩
  · rw [faulty_eq hnull] at h
    obtain ⟨hrefused, hlarge⟩ := Bool.or_eq_false_iff.mp h
    obtain ⟨x, hx⟩ := Json.toFloat_read hrefused hlarge
    exact ⟨clampFloat x, by rw [normalize_eq hnull, hx]; rfl, FloatValue.clamp_range _⟩

/-- The loop stops at the first value that cannot be converted. -/
theorem normalized_fault {rs : List Reading} {r : Reading} {e : PyError} (h : firstFault py rs = some r)
    (he : py.normalize r.value r.default = .error e) : normalized py rs = .error e := by
  induction rs with
  | nil => cases h
  | cons first rs ih =>
      unfold firstFault at h ih
      rw [List.find?_cons] at h
      split at h
      · obtain rfl := Option.some.inj h
        rw [normalized, he]
        rfl
      · next hfine =>
          obtain ⟨x, hx, -⟩ := normalize_fine hfine first.default
          rw [normalized, hx, ih h]
          rfl

/-- Otherwise all the values are clamped. -/
theorem normalized_fine {rs : List Reading} (h : firstFault py rs = none) :
    ∃ values, normalized py rs = .ok values ∧ ∀ kx ∈ values, 0 ≤ kx.2 ∧ kx.2 ≤ 1 := by
  induction rs with
  | nil => exact ⟨[], rfl, fun kx h => by cases h⟩
  | cons first rs ih =>
      obtain ⟨hfine, hrest⟩ := List.forall_mem_cons.mp (List.find?_eq_none.mp h)
      obtain ⟨x, hx, hrange⟩ := normalize_fine (Bool.not_eq_true _ ▸ hfine) first.default
      obtain ⟨values, hvalues, hall⟩ := ih (List.find?_eq_none.mpr hrest)
      refine ⟨(first.key, x) :: values, ?_, List.forall_mem_cons.mpr ⟨hrange, hall⟩⟩
      rw [normalized, hx, hvalues]
      rfl

/-! ## Pieces -/

/-- `payload.get("analysis", payload)`. -/
def analysisOf (fields : List (String × Json Number)) : Json Number := (fields.lookup "analysis").getD (.obj fields)

/-- The piece is an object with values that can all be converted. -/
inductive Usable (py : Conversions) (c : String) : Prop
  | object {fields analysis : List (String × Json Number)} (hobject : loads c = .ok (.obj fields))
      (hanalysis : analysisOf fields = .obj analysis) (hfine : firstFault py (readings fields analysis) = none)

/-- The piece is left out: it is no JSON, it has an analysis that is no object, or the first value that cannot be
converted is refused. -/
inductive Skipped (py : Conversions) (c : String) : Prop
  | noJson (h : loads c = .error .decodeError)
  | noAnalysis {fields : List (String × Json Number)} (hobject : loads c = .ok (.obj fields))
      (hanalysis : ∀ analysis, analysisOf fields ≠ .obj analysis)
  | refused {fields analysis : List (String × Json Number)} {r : Reading} (hobject : loads c = .ok (.obj fields))
      (hanalysis : analysisOf fields = .obj analysis) (hfault : firstFault py (readings fields analysis) = some r)
      (hrefused : r.value.refused py.float)

/-- The piece makes the extraction fail: it has an integer with too many digits, it is no object, or the first value
that cannot be converted is an integer that is too large for a float. -/
inductive Fatal (py : Conversions) (c : String) : Prop
  | tooManyDigits (h : loads c = .error .valueError)
  | noObject {payload : Json Number} (h : loads c = .ok payload) (hno : ∀ fields, payload ≠ .obj fields)
  | tooLarge {fields analysis : List (String × Json Number)} {r : Reading} (hobject : loads c = .ok (.obj fields))
      (hanalysis : analysisOf fields = .obj analysis) (hfault : firstFault py (readings fields analysis) = some r)
      (hlarge : r.value.overflows)

theorem usable_or_skipped_or_fatal (py : Conversions) (c : String) : Usable py c ∨ Skipped py c ∨ Fatal py c := by
  cases hloads : loads c with
  | error e =>
      cases e with
      | decodeError => exact .inr (.inl (.noJson hloads))
      | valueError => exact .inr (.inr (.tooManyDigits hloads))
  | ok payload =>
      by_cases hobject : ∃ fields, payload = .obj fields
      · obtain ⟨fields, rfl⟩ := hobject
        by_cases hanalysis : ∃ analysis, analysisOf fields = .obj analysis
        · obtain ⟨analysis, hanalysis⟩ := hanalysis
          cases hfault : firstFault py (readings fields analysis) with
          | none => exact .inl (.object hloads hanalysis hfault)
          | some r =>
              have hr := faulty_of_firstFault hfault
              rw [faulty_eq (ne_null_of_faulty hr)] at hr
              rcases Bool.or_eq_true_iff.mp hr with hr | hr
              · exact .inr (.inl (.refused hloads hanalysis hfault hr))
              · exact .inr (.inr (.tooLarge hloads hanalysis hfault hr))
        · exact .inr (.inl (.noAnalysis hloads fun analysis h => hanalysis ⟨analysis, h⟩))
      · exact .inr (.inr (.noObject hloads fun fields h => hobject ⟨fields, h⟩))

theorem fromPayload_object {fields analysis : List (String × Json Number)} (h : analysisOf fields = .obj analysis) :
    fromPayload py (.obj fields) = (normalized py (readings fields analysis)).map (analysisWith py fields) := by
  unfold analysisOf at h
  rw [fromPayload, h]

/-- An analysis of clamped values is in range. -/
theorem analysisWith_inRange {values : List (String × ℚ)} (h : ∀ kx ∈ values, 0 ≤ kx.2 ∧ kx.2 ≤ 1)
    (fields : List (String × Json Number)) : (analysisWith py fields values).InRange := by
  have hlookup (key : String) {default : ℚ} (hdefault : 0 ≤ default ∧ default ≤ 1) :
      0 ≤ (values.lookup key).getD default ∧ (values.lookup key).getD default ≤ 1 := by
    cases hkey : values.lookup key with
    | none => exact hdefault
    | some x =>
        obtain ⟨before, after, rfl, -⟩ := List.lookup_eq_some_iff.mp hkey
        exact h (key, x) (List.mem_append_right before List.mem_cons_self)
  refine ⟨fun k => hlookup k.key ?_, hlookup "confidence_score" ⟨le_rfl, zero_le_one⟩⟩
  cases k <;> norm_num [Persona.Knob.default]

theorem parseCandidates_usable (h : Usable py c) (cs : List String) :
    ∃ a, parseCandidates py (c :: cs) = .ok (some a) ∧ a.InRange := by
  cases h with | @object fields analysis hobject hanalysis hfine
  obtain ⟨values, hvalues, hrange⟩ := normalized_fine hfine
  refine ⟨analysisWith py fields values, ?_, analysisWith_inRange hrange fields⟩
  rw [parseCandidates, hobject]
  simp only [fromPayload_object hanalysis, hvalues]
  rfl

theorem parseCandidates_skipped (h : Skipped py c) : parseCandidates py (c :: cs) = parseCandidates py cs := by
  rw [parseCandidates]
  cases h with
  | noJson h => rw [h]
  | @noAnalysis fields hobject hanalysis =>
      have hfrom : fromPayload py (.obj fields) = .error .typeError := by
        unfold analysisOf at hanalysis
        rw [fromPayload]
        split
        · next analysis h => exact absurd h (hanalysis analysis)
        · rfl
      rw [hobject]
      simp only [hfrom]
  | @refused fields analysis r hobject hanalysis hfault hrefused =>
      rw [hobject]
      simp only [fromPayload_object hanalysis]
      have hnull := ne_null_of_faulty (faulty_of_firstFault hfault)
      rcases Json.toFloat_refused hrefused with he | he
      · rw [normalized_fault hfault (by rw [normalize_eq hnull, he]; rfl)]
        rfl
      · rw [normalized_fault hfault (by rw [normalize_eq hnull, he]; rfl)]
        rfl

theorem parseCandidates_fatal (h : Fatal py c) : ∃ e, parseCandidates py (c :: cs) = .error e := by
  rw [parseCandidates]
  cases h with
  | tooManyDigits h => exact ⟨.valueError, by rw [h]⟩
  | @noObject payload h hno =>
      refine ⟨.attributeError, ?_⟩
      have hfrom : fromPayload py payload = .error .attributeError := by
        unfold fromPayload
        split
        · next fields => exact absurd rfl (hno fields)
        · rfl
      rw [h]
      simp only [hfrom]
  | @tooLarge fields analysis r hobject hanalysis hfault hlarge =>
      refine ⟨.overflowError, ?_⟩
      rw [hobject]
      simp only [fromPayload_object hanalysis]
      have hnull := ne_null_of_faulty (faulty_of_firstFault hfault)
      rw [normalized_fault hfault (by rw [normalize_eq hnull, Json.toFloat_overflows hlarge]; rfl)]
      rfl

/-! ## Responses -/

/-- The first piece that is not left out is fatal. -/
def Breaks (py : Conversions) (cs : List String) : Prop :=
  ∃ pre c post, cs = pre ++ c :: post ∧ (∀ d ∈ pre, Skipped py d) ∧ Fatal py c

/-- **What a response comes to**: nothing, a failure or an analysis in range. -/
theorem parseCandidates_spec (py : Conversions) (cs : List String) :
    (parseCandidates py cs = .ok none ∧ ∀ c ∈ cs, Skipped py c) ∨
      (∃ e, parseCandidates py cs = .error e) ∧ Breaks py cs ∨
      ∃ a, parseCandidates py cs = .ok (some a) ∧ a.InRange ∧ ∃ c ∈ cs, Usable py c := by
  induction cs with
  | nil => exact .inl ⟨rfl, fun c h => by cases h⟩
  | cons c cs ih =>
      rcases usable_or_skipped_or_fatal py c with h | h | h
      · obtain ⟨a, ha, hrange⟩ := parseCandidates_usable h cs
        exact .inr (.inr ⟨a, ha, hrange, c, List.mem_cons_self, h⟩)
      · rw [parseCandidates_skipped h]
        rcases ih with ⟨hnone, hall⟩ | ⟨herror, pre, d, post, rfl, hpre, hd⟩ | ⟨a, ha, hrange, d, hd, husable⟩
        · exact .inl ⟨hnone, List.forall_mem_cons.mpr ⟨h, hall⟩⟩
        · exact .inr (.inl ⟨herror, c :: pre, d, post, rfl, List.forall_mem_cons.mpr ⟨h, hpre⟩, hd⟩)
        · exact .inr (.inr ⟨a, ha, hrange, d, List.mem_cons_of_mem c hd, husable⟩)
      · exact .inr (.inl ⟨parseCandidates_fatal h, [], c, cs, rfl, fun d hd => (by cases hd), h⟩)

/-- What breaks a response makes it fail. -/
theorem Breaks.fails (h : Breaks py cs) : ∃ e, parseCandidates py cs = .error e := by
  obtain ⟨pre, c, post, rfl, hpre, hc⟩ := h
  induction pre with
  | nil => exact parseCandidates_fatal hc
  | cons d pre ih =>
      obtain ⟨hd, hpre⟩ := List.forall_mem_cons.mp hpre
      rw [List.cons_append, parseCandidates_skipped hd]
      exact ih hpre

/-- A response that does not fail has nothing that breaks it. -/
theorem not_breaks (h : (parseCandidates py cs).isOk) : ¬ Breaks py cs := by
  intro hbreaks
  obtain ⟨e, herror⟩ := hbreaks.fails
  rw [herror] at h
  cases h

/-- The kinds of pieces exclude each other: a response of pieces that are left out is not usable. -/
theorem Skipped.not_usable (h : Skipped py c) : ¬ Usable py c := by
  intro husable
  obtain ⟨a, ha, -⟩ := parseCandidates_usable husable []
  rw [parseCandidates_skipped h] at ha
  cases ha

/-- What stands in braces. -/
theorem groups_braced {groups : List (List Char)} {u t : List Char} (h : (groups, t) ∈ bracedRe.ways u) :
    ∃ m, groups = ['{' :: (m ++ ['}'])] := by
  obtain ⟨a, bs, rfl, hways, rfl⟩ := Regex.mem_ways_group.mp h
  obtain ⟨u₁, hopen, hways⟩ := Regex.mem_ways_lit_seq.mp hways
  obtain ⟨m, u₂, rfl, -, hways⟩ := Regex.mem_ways_many_seq.mp hways
  obtain ⟨u₃, rfl, hempty⟩ := Regex.mem_ways_lit_seq.mp hways
  obtain ⟨rfl, rfl⟩ := Regex.mem_ways_empty.mp hempty
  refine ⟨m, ?_⟩
  have ha : a ++ u₃ = ('{' :: (m ++ ['}'])) ++ u₃ := by simpa using hopen
  rw [List.append_cancel_right ha]

theorem groups_fenced {groups : List (List Char)} {u t : List Char} (h : (groups, t) ∈ fencedRe.ways u) :
    ∃ m, groups = ['{' :: (m ++ ['}'])] := by
  obtain ⟨u₁, -, h₁⟩ := Regex.mem_ways_lit_seq.mp h
  obtain ⟨gs, u₂, _, hjson, h₂, rfl⟩ := Regex.mem_ways_seq.mp h₁
  obtain ⟨w, u₃, rfl, -, h₃⟩ := Regex.mem_ways_many_seq.mp h₂
  obtain ⟨_, u₄, _, hbraced, h₄, rfl⟩ := Regex.mem_ways_seq.mp h₃
  obtain ⟨w', u₅, rfl, -, h₅⟩ := Regex.mem_ways_many_seq.mp h₄
  obtain ⟨u₆, rfl, hempty⟩ := Regex.mem_ways_lit_seq.mp h₅
  obtain ⟨rfl, -⟩ := Regex.mem_ways_empty.mp hempty
  obtain ⟨m, rfl⟩ := groups_braced hbraced
  have hgs : gs = [] := by
    rcases Regex.mem_ways_maybe.mp hjson with hjson | ⟨rfl, -⟩
    · exact (Regex.mem_ways_lit.mp hjson).1
    · rfl
  exact ⟨m, by rw [hgs]; rfl⟩

/-- What is searched for in braces starts with one. -/
theorem searched_braced {r : Regex} (hr : ∀ {groups u t}, (groups, t) ∈ r.ways u → ∃ m, groups = ['{' :: (m ++ ['}'])])
    (h : searched r text = some c) : ∃ s, c.toList = '{' :: s := by
  obtain ⟨groups, hhead, rfl⟩ := Option.map_eq_some_iff.mp h
  obtain ⟨u, t, -, hways⟩ := Regex.of_mem_finditer (List.mem_of_mem_head? hhead)
  obtain ⟨m, rfl⟩ := hr hways
  refine ⟨m ++ ['}'], Py.strip_eq_self_iff.mpr ⟨fun d hd => ?_, fun d hd => ?_⟩⟩
  · obtain rfl := Option.some.inj hd
    decide
  · have hlast : ('{' :: (m ++ ['}'])).getLast? = some '}' := by rw [← List.cons_append, List.getLast?_concat]
    obtain rfl := Option.some.inj (hlast.symm.trans hd)
    decide

/-- **Only a whole response can be something other than an object.** -/
theorem noObject_whole {response : String} {payload : Json Number} (hc : c ∈ candidates response)
    (h : loads c = .ok payload) (hno : ∀ fields, payload ≠ .obj fields) : c = Py.strip response := by
  have hbrace : ¬ ∃ s, c.toList = '{' :: s := by
    rintro ⟨s, hs⟩
    unfold loads at h
    rw [hs] at h
    obtain ⟨fields, hfields⟩ := Json.read_brace h
    exact hno fields hfields
  rcases List.mem_append.mp hc with hc | hc
  · rcases List.mem_append.mp hc with hc | hc
    · exact absurd (searched_braced groups_fenced (Option.mem_toList.mp hc)) hbrace
    · exact List.mem_singleton.mp hc
  · exact absurd (searched_braced groups_braced (Option.mem_toList.mp hc)) hbrace

/-! ## The extraction -/

/-- **What is promised of an extraction**: an analysis in range, the heuristic one if there is no model to ask or
neither response has a piece that can be used. -/
def Safe (py : Conversions) (chars : Characters) (llm : PersolaLLM) (text : String) : Prop :=
  let response := llm.generate (.analysis (Py.strip text))
  let retryResponse := llm.generate (.retry (Py.strip text) response)
  ∃ a, extract py chars llm text = .ok a ∧ a.InRange ∧
    ((llm.isAvailable = true → (∀ c ∈ candidates response, ¬ Usable py c) ∧
      ∀ c ∈ candidates retryResponse, ¬ Usable py c) →
      ∃ notes, a = heuristicAnalysis chars (Py.strip text) notes)

/-- What follows the first response. -/
theorem extract_eq (htext : Py.strip text ≠ "") (havailable : llm.isAvailable = true) :
    extract py chars llm text =
      (parseCandidates py (candidates (llm.generate (.analysis (Py.strip text))))).bind fun
        | some parsed => .ok parsed
        | none =>
            (parseCandidates py (candidates (llm.generate
              (.retry (Py.strip text) (llm.generate (.analysis (Py.strip text))))))).bind fun
              | none => .ok (heuristicAnalysis chars (Py.strip text)
                  "Could not parse structured LLM output after retry; used heuristic analysis.")
              | some parsed => .ok { parsed with
                  notes := if parsed.notes ≠ "" then "Retried after malformed LLM JSON. " ++ parsed.notes
                    else "Retried after malformed LLM JSON." } := by
  unfold extract
  simp only [if_neg htext, havailable]
  rfl

/-- **The extraction is safe exactly if no fatal piece is met**: neither in the first response, nor in the second one
where all the pieces of the first are left out. -/
theorem extract_safe_iff (py : Conversions) (chars : Characters) (llm : PersolaLLM) (text : String)
    (htext : Py.strip text ≠ "") : Safe py chars llm text ↔
      (llm.isAvailable = true →
        let response := llm.generate (.analysis (Py.strip text))
        ¬ Breaks py (candidates response) ∧ ((∀ c ∈ candidates response, Skipped py c) →
          ¬ Breaks py (candidates (llm.generate (.retry (Py.strip text) response))))) := by
  cases havailable : llm.isAvailable with
  | false =>
      refine iff_of_true ⟨heuristicAnalysis chars (Py.strip text) "LLM unavailable; used heuristic analysis.", ?_,
        heuristicAnalysis_inRange _ _ _, fun _ => ⟨_, rfl⟩⟩ fun h => (by cases h)
      unfold extract
      simp only [if_neg htext, havailable]
      rfl
  | true =>
      unfold Safe
      rw [extract_eq htext havailable, havailable]
      dsimp only
      generalize llm.generate (.analysis (Py.strip text)) = response
      generalize llm.generate (.retry (Py.strip text) response) = retryResponse
      rcases parseCandidates_spec py (candidates response) with ⟨hnone, hall⟩ | ⟨⟨e, herror⟩, hbreaks⟩ |
        ⟨a, ha, hrange, c, hc, husable⟩
      · -- nothing in the first response
        have hfirst : ¬ Breaks py (candidates response) := not_breaks (by rw [hnone]; rfl)
        rw [hnone]
        rcases parseCandidates_spec py (candidates retryResponse) with ⟨hnone', hall'⟩ | ⟨⟨e, herror⟩, hbreaks⟩ |
          ⟨a, ha, hrange, c, hc, husable⟩
        · rw [hnone']
          exact iff_of_true ⟨_, rfl, heuristicAnalysis_inRange _ _ _, fun _ => ⟨_, rfl⟩⟩
            fun _ => ⟨hfirst, fun _ => not_breaks (by rw [hnone']; rfl)⟩
        · rw [herror]
          exact iff_of_false (fun ⟨a, ha, _⟩ => by cases ha) fun h => (h rfl).2 hall hbreaks
        · rw [ha]
          exact iff_of_true
            ⟨_, rfl, ⟨hrange.knobs, hrange.confidenceScore⟩, fun h => absurd husable ((h rfl).2 c hc)⟩
            fun _ => ⟨hfirst, fun _ => not_breaks (by rw [ha]; rfl)⟩
      · rw [herror]
        exact iff_of_false (fun ⟨a, ha, _⟩ => by cases ha) fun h => (h rfl).1 hbreaks
      · rw [ha]
        exact iff_of_true ⟨a, rfl, hrange, fun h => absurd husable ((h rfl).1 c hc)⟩
          fun _ => ⟨not_breaks (by rw [ha]; rfl), fun hall => absurd husable (hall c hc).not_usable⟩

/-! ### Two models -/

/-- Conversions for responses without texts in place of numbers. -/
def plainConversions : Conversions := ⟨fun _ => none, fun _ => ""⟩

/-- Characters of ASCII. -/
def asciiCharacters : Characters := ⟨fun c => c.isAlphanum || c = '_', List.map Char.toLower, fun c d =>
  c.toLower == d.toLower⟩

/-- A model that has nothing to say at first. -/
def hesitantLLM : PersolaLLM where
  isAvailable := true
  generate
    | .analysis _ => "Well."
    | .retry _ _ => "\x7b\"humor\": 2\x7d"

theorem extract_safe_hesitant : Safe plainConversions asciiCharacters hesitantLLM "Hello." := by
  refine (extract_safe_iff plainConversions asciiCharacters hesitantLLM "Hello." (by decide)).mpr fun _ => ?_
  have hfirst : (parseCandidates plainConversions (candidates "Well.")).isOk := by decide +kernel
  have hretry : (parseCandidates plainConversions (candidates "\x7b\"humor\": 2\x7d")).isOk := by decide +kernel
  exact ⟨not_breaks hfirst, fun _ => not_breaks hretry⟩

/-- A model that returns a list. -/
def listLLM : PersolaLLM where
  isAvailable := true
  generate _ := "[]"

theorem extract_list_unsafe : Py.strip "Hello." ≠ "" ∧
    extract plainConversions asciiCharacters listLLM "Hello." = .error .attributeError ∧
    ¬ Safe plainConversions asciiCharacters listLLM "Hello." := by
  have hcandidates : candidates "[]" = ["[]"] := by decide +kernel
  have hparse : parseCandidates plainConversions (candidates "[]") = .error .attributeError := by
    rw [hcandidates]
    rfl
  have hraised : extract plainConversions asciiCharacters listLLM "Hello." = .error .attributeError := by
    rw [extract_eq (by decide) rfl]
    show (parseCandidates plainConversions (candidates "[]")).bind _ = _
    rw [hparse]
    rfl
  refine ⟨by decide, hraised, fun ⟨a, ha, _⟩ => ?_⟩
  rw [hraised] at ha
  cases ha

end Persola.Analysis
