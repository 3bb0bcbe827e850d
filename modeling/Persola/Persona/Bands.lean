import Persola.Lib.Breaks
import Persola.Persona.Engine

/-!
# `Persona.Bands` — what a prompt tells of a persona

The prompt has a line for every knob, chosen by the band the knob is in, after a name and a description that may contain
anything, other prompts included. Read off its end, it tells the band of every knob, and nothing else of them: two
personas have one prompt exactly if their heads are one text and no knob is in another band (`prompt_eq_iff`).
-/

namespace Persola.Persona

open Breaks

/-! ## Bands -/

/-- The thresholds of a knob. -/
def Knob.thresholds : Knob → List ℚ
  | .creativity => [3/10, 5/10, 7/10]
  | .accuracy | .reliability | .consistency => [6/10, 8/10]
  | _ => [4/10, 7/10]

/-- The band of a value: how many thresholds it is above. -/
def Knob.level (k : Knob) (v : ℚ) : ℕ := k.thresholds.countP (· < v)

/-- The line of a knob tells its band. -/
structure Tells (k : Knob) (line : (Knob → ℚ) → String) : Prop where
  unbroken : ∀ knobs, breaks (line knobs) = 0
  band : ∀ p q, line p = line q ↔ k.level (p k) = k.level (q k)

/-- The lines of some knobs tell their bands. -/
structure TellAll (ks : List Knob) (lines : (Knob → ℚ) → List String) : Prop where
  length : ∀ knobs, (lines knobs).length = ks.length
  unbroken : ∀ knobs, ∀ line ∈ lines knobs, breaks line = 0
  bands : ∀ p q, lines p = lines q ↔ ∀ k ∈ ks, k.level (p k) = k.level (q k)

section
variable {k : Knob} {ks : List Knob} {line : (Knob → ℚ) → String} {lines : (Knob → ℚ) → List String}

theorem TellAll.nil : TellAll [] fun _ => [] := ⟨fun _ => rfl, by simp, by simp⟩

theorem TellAll.cons (h : Tells k line) (hs : TellAll ks lines) :
    TellAll (k :: ks) fun knobs => line knobs :: lines knobs where
  length knobs := congrArg (· + 1) (hs.length knobs)
  unbroken knobs := List.forall_mem_cons.mpr ⟨h.unbroken knobs, hs.unbroken knobs⟩
  bands p q := by rw [List.cons.injEq, h.band, hs.bands, List.forall_mem_cons]

/-- The band of a knob with two thresholds. -/
theorem level_two {hi mid : ℚ} (hthresholds : k.thresholds = [mid, hi]) (hlt : mid < hi) (v : ℚ) :
    k.level v = if hi < v then 2 else if mid < v then 1 else 0 := by
  unfold Knob.level
  rw [hthresholds, List.countP_cons, List.countP_singleton]
  by_cases hhi : hi < v
  · have hmid : mid < v := hlt.trans hhi
    simp [hhi, hmid]
  · simp [hhi]

/-- A line chosen by two thresholds. -/
theorem tells_band {hi mid : ℚ} {high middle low : String} (hthresholds : k.thresholds = [mid, hi]) (hlt : mid < hi)
    (hbreaks : breaks high = 0 ∧ breaks middle = 0 ∧ breaks low = 0)
    (hne : high ≠ middle ∧ high ≠ low ∧ middle ≠ low) :
    Tells k fun knobs => Persona.band (knobs k) hi mid high middle low where
  unbroken knobs := by
    unfold Persona.band
    split
    · exact hbreaks.1
    · split
      · exact hbreaks.2.1
      · exact hbreaks.2.2
  band p q := by
    obtain ⟨hhm, hhl, hml⟩ := hne
    unfold Persona.band
    rw [level_two hthresholds hlt, level_two hthresholds hlt]
    -- nine cases: the bands of the one and of the other
    split_ifs <;> simp [hhm, hhl, hml, hhm.symm, hhl.symm, hml.symm]

theorem level_creativity (v : ℚ) : Knob.creativity.level v =
    if 7/10 < v then 3 else if 5/10 < v then 2 else if 3/10 < v then 1 else 0 := by
  show [(3/10 : ℚ), 5/10, 7/10].countP (· < v) = _
  rw [List.countP_cons, List.countP_cons, List.countP_singleton]
  by_cases hhigh : 7/10 < v
  · have hmid : 5/10 < v := lt_trans (by norm_num) hhigh
    have hlow : 3/10 < v := lt_trans (by norm_num) hhigh
    simp [hhigh, hmid, hlow]
  · by_cases hmid : 5/10 < v
    · have hlow : 3/10 < v := lt_trans (by norm_num) hmid
      simp [hhigh, hmid, hlow]
    · simp [hhigh, hmid]

/-- The line of the knob with three thresholds. -/
theorem tells_creativity : Tells .creativity fun knobs =>
    if knobs .creativity > 7/10 then "Be highly creative and imaginative in your responses."
    else if knobs .creativity > 5/10 then "Be moderately creative in your responses."
    else if knobs .creativity > 3/10 then "Be somewhat straightforward in your responses."
    else "Be practical and conventional in your responses." where
  unbroken knobs := by split_ifs <;> exact (breaks_ofList _).trans (by decide)
  band p q := by
    rw [level_creativity, level_creativity]
    split_ifs <;> simp

/-- A section tells the bands of its knobs. -/
theorem TellAll.promptSection (h : TellAll ks lines) {heading : String} (hheading : breaks heading = 0)
    (hne : ks ≠ []) :
    (∀ knobs, breaks (Persona.promptSection heading (lines knobs)) = ks.length) ∧
      ∀ p q, Persona.promptSection heading (lines p) = Persona.promptSection heading (lines q) ↔
        ∀ k ∈ ks, k.level (p k) = k.level (q k) := by
  have hunbroken : ∀ knobs, ∀ line ∈ (lines knobs).map fun line => "- " ++ line, breaks line = 0 := by
    intro knobs
    refine List.forall_mem_map.mpr fun line hline => ?_
    rw [breaks_append, h.unbroken knobs line hline]
    rfl
  have hlength : ∀ knobs, ((lines knobs).map fun line => "- " ++ line).length = ks.length := by
    intro knobs
    rw [List.length_map, h.length]
  have hbreaks : ∀ knobs, breaks ("\n".intercalate ((lines knobs).map fun line => "- " ++ line)) = ks.length - 1 := by
    intro knobs
    rw [breaks_intercalate (hunbroken knobs), hlength]
  have hpos : 0 < ks.length := List.length_pos_of_ne_nil hne
  constructor
  · intro knobs
    have hbreak : breaks "\n" = 1 := rfl
    unfold Persona.promptSection
    rw [breaks_append, breaks_append, hheading, hbreaks, hbreak]
    omega
  · intro p q
    rw [← h.bands p q]
    refine ⟨fun heq => ?_, fun heq => by rw [heq]⟩
    obtain ⟨-, hrest⟩ := append_inj heq (by rw [hbreaks, hbreaks])
    have hlines := intercalate_inj (hunbroken p) (hunbroken q) (by rw [hlength, hlength]) hrest
    refine List.map_injective_iff.mpr (fun a b hab => ?_) hlines
    exact String.append_right_inj _ |>.mp hab

/-- Three lines that are none of each other. -/
def Distinct (high middle low : String) : Prop :=
  (breaks high = 0 ∧ breaks middle = 0 ∧ breaks low = 0) ∧ high ≠ middle ∧ high ≠ low ∧ middle ≠ low

/-- Lines are told apart by their characters. -/
theorem distinct_ofList {high middle low : List Char}
    (h : (high.count '\n' = 0 ∧ middle.count '\n' = 0 ∧ low.count '\n' = 0) ∧
      high ≠ middle ∧ high ≠ low ∧ middle ≠ low) :
    Distinct (String.ofList high) (String.ofList middle) (String.ofList low) := by
  unfold Distinct
  simpa only [breaks_ofList, ne_eq, String.ofList_inj] using h

/-- The line of most knobs. -/
theorem tells_usual {high middle low : String} (hthresholds : k.thresholds = [4/10, 7/10])
    (h : Distinct high middle low) : Tells k fun knobs => Persona.band (knobs k) (7/10) (4/10) high middle low :=
  tells_band hthresholds (by norm_num) h.1 h.2

/-- The line of a knob that is high by default. -/
theorem tells_strict {high middle low : String} (hthresholds : k.thresholds = [6/10, 8/10])
    (h : Distinct high middle low) : Tells k fun knobs => Persona.band (knobs k) (8/10) (6/10) high middle low :=
  tells_band hthresholds (by norm_num) h.1 h.2

end

/-! ## Sections -/

theorem creativity_tells : (∀ knobs, breaks (buildCreativitySection knobs) = 6) ∧
    ∀ p q, buildCreativitySection p = buildCreativitySection q ↔
      ∀ k ∈ [Knob.creativity, .humor, .formality, .verbosity, .empathy, .confidence],
        k.level (p k) = k.level (q k) := by
  refine TellAll.promptSection (.cons tells_creativity <| .cons (tells_usual rfl ?_) <| .cons (tells_usual rfl ?_) <|
    .cons (tells_usual rfl ?_) <| .cons (tells_usual rfl ?_) <| .cons (tells_usual rfl ?_) .nil)
    ((breaks_ofList _).trans (by decide)) (by simp)
  all_goals exact distinct_ofList (by decide +kernel)

theorem personality_tells : (∀ knobs, breaks (buildPersonalitySection knobs) = 5) ∧
    ∀ p q, buildPersonalitySection p = buildPersonalitySection q ↔
      ∀ k ∈ [Knob.openness, .conscientiousness, .extraversion, .agreeableness, .neuroticism],
        k.level (p k) = k.level (q k) := by
  refine TellAll.promptSection (.cons (tells_usual rfl ?_) <| .cons (tells_usual rfl ?_) <|
    .cons (tells_usual rfl ?_) <| .cons (tells_usual rfl ?_) <| .cons (tells_usual rfl ?_) .nil)
    ((breaks_ofList _).trans (by decide)) (by simp)
  all_goals exact distinct_ofList (by decide +kernel)

theorem thinking_tells : (∀ knobs, breaks (buildThinkingSection knobs) = 6) ∧
    ∀ p q, buildThinkingSection p = buildThinkingSection q ↔
      ∀ k ∈ [Knob.reasoningDepth, .stepByStep, .creativityInReasoning, .synthetics, .abstraction, .patterns],
        k.level (p k) = k.level (q k) := by
  refine TellAll.promptSection (.cons (tells_usual rfl ?_) <| .cons (tells_usual rfl ?_) <|
    .cons (tells_usual rfl ?_) <| .cons (tells_usual rfl ?_) <| .cons (tells_usual rfl ?_) <|
    .cons (tells_usual rfl ?_) .nil)
    ((breaks_ofList _).trans (by decide)) (by simp)
  all_goals exact distinct_ofList (by decide +kernel)

theorem reliability_tells : (∀ knobs, breaks (buildReliabilitySection knobs) = 6) ∧
    ∀ p q, buildReliabilitySection p = buildReliabilitySection q ↔
      ∀ k ∈ [Knob.accuracy, .reliability, .caution, .consistency, .selfCorrection, .transparency],
        k.level (p k) = k.level (q k) := by
  refine TellAll.promptSection (.cons (tells_strict rfl ?_) <| .cons (tells_strict rfl ?_) <|
    .cons (tells_usual rfl ?_) <| .cons (tells_strict rfl ?_) <| .cons (tells_usual rfl ?_) <|
    .cons (tells_usual rfl ?_) .nil)
    ((breaks_ofList _).trans (by decide)) (by simp)
  all_goals exact distinct_ofList (by decide +kernel)

/-! ## Prompts -/

/-- The head of a prompt: what comes before its sections. -/
def PersonaProfile.head (p : PersonaProfile) : String := p.name ++ ".\n" ++ p.description

/-- A section is read off the end, with the empty line before it. -/
theorem section_inj {a b s t : String} (h : a ++ "\n\n" ++ s = b ++ "\n\n" ++ t) (hbreaks : breaks s = breaks t) :
    a = b ∧ s = t := by
  have hempty : ("\n\n" : String) = "\n" ++ "\n" := rfl
  rw [hempty, ← String.append_assoc, ← String.append_assoc] at h
  obtain ⟨hab, hst⟩ := append_inj h hbreaks
  exact ⟨(String.append_left_inj _).mp hab, hst⟩

/-- **A prompt tells its head and the band of every knob, and nothing else**: two profiles have the same system prompt
exactly if their heads are one text, and no knob is in another band. -/
theorem buildSystemPrompt_eq_iff (p q : PersonaProfile) : buildSystemPrompt p = buildSystemPrompt q ↔
    p.head = q.head ∧ ∀ k : Knob, k.level (p.knobs k) = k.level (q.knobs k) := by
  have hhead (p : PersonaProfile) : "You are " ++ p.name ++ ".\n" ++ p.description = "You are " ++ p.head := by
    unfold PersonaProfile.head
    simp only [String.append_assoc]
  unfold buildSystemPrompt
  rw [hhead, hhead]
  constructor
  · intro h
    -- from the end: the closing line, then section after section
    obtain ⟨h, -⟩ := section_inj h rfl
    obtain ⟨h, hreliability⟩ := section_inj h ((reliability_tells.1 _).trans (reliability_tells.1 _).symm)
    obtain ⟨h, hthinking⟩ := section_inj h ((thinking_tells.1 _).trans (thinking_tells.1 _).symm)
    obtain ⟨h, hpersonality⟩ := section_inj h ((personality_tells.1 _).trans (personality_tells.1 _).symm)
    obtain ⟨h, hcreativity⟩ := section_inj h ((creativity_tells.1 _).trans (creativity_tells.1 _).symm)
    refine ⟨(String.append_right_inj _).mp h, fun k => ?_⟩
    have hcreativity := (creativity_tells.2 _ _).mp hcreativity k
    have hpersonality := (personality_tells.2 _ _).mp hpersonality k
    have hthinking := (thinking_tells.2 _ _).mp hthinking k
    have hreliability := (reliability_tells.2 _ _).mp hreliability k
    -- every knob is in one of the sections
    cases k <;> first
      | exact hcreativity (by decide)
      | exact hpersonality (by decide)
      | exact hthinking (by decide)
      | exact hreliability (by decide)
  · rintro ⟨hhead, hlevels⟩
    rw [hhead, (creativity_tells.2 p.knobs q.knobs).mpr fun k _ => hlevels k,
      (personality_tells.2 p.knobs q.knobs).mpr fun k _ => hlevels k,
      (thinking_tells.2 p.knobs q.knobs).mpr fun k _ => hlevels k,
      (reliability_tells.2 p.knobs q.knobs).mpr fun k _ => hlevels k]

end Persola.Persona
