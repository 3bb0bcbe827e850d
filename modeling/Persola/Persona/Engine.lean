import Persola.Lib.Binary64
import Persola.Persona.Model

/-!
# `Persona.Engine` — system prompts and sampling parameters computed from a profile

`PersonaEngine` turns the knobs of a profile into prompt text (one line per knob, chosen by two
thresholds; `creativity` has a third) and into sampling parameters. Both are functions of the profile
alone, which is what makes caching them meaningful.
-/

namespace Persola.Persona

/-- The line a knob contributes: above `hi`, above `mid`, otherwise. -/
def band (v hi mid : ℚ) (high middle low : String) : String :=
  if v > hi then high else if v > mid then middle else low

/-- A prompt section: its heading and one `- ` line for each part. -/
def promptSection (heading : String) (parts : List String) : String :=
  heading ++ "\n" ++ "\n".intercalate (parts.map fun p => "- " ++ p)

/-- `_build_creativity_section`. -/
def buildCreativitySection (k : Knob → ℚ) : String :=
  promptSection "## Creativity & Communication"
    [ if k .creativity > 7/10 then "Be highly creative and imaginative in your responses."
      else if k .creativity > 5/10 then "Be moderately creative in your responses."
      else if k .creativity > 3/10 then "Be somewhat straightforward in your responses."
      else "Be practical and conventional in your responses.",
      band (k .humor) (7/10) (4/10) "Use humor frequently in your responses."
        "Use occasional humor when appropriate." "Keep a serious tone.",
      band (k .formality) (7/10) (4/10) "Use formal language and professional tone."
        "Use semi-formal language." "Use casual, informal language.",
      band (k .verbosity) (7/10) (4/10) "Provide detailed, comprehensive responses."
        "Provide moderate-length responses." "Keep responses concise and to the point.",
      band (k .empathy) (7/10) (4/10) "Show high empathy and emotional understanding."
        "Show moderate empathy and consideration." "Focus primarily on factual responses.",
      band (k .confidence) (7/10) (4/10) "Be confident and assertive in your responses."
        "Be reasonably confident in your responses." "Be humble about your limitations." ]

/-- `_build_personality_section`. -/
def buildPersonalitySection (k : Knob → ℚ) : String :=
  promptSection "## Personality Traits"
    [ band (k .openness) (7/10) (4/10)
        "Be very open to new ideas and unconventional perspectives."
        "Be open to considering new ideas."
        "Prefer established approaches and conventional wisdom.",
      band (k .conscientiousness) (7/10) (4/10) "Be highly organized and thorough."
        "Be reasonably organized and detail-oriented." "Be flexible and adaptable.",
      band (k .extraversion) (7/10) (4/10) "Be enthusiastic and engaged in conversation."
        "Be friendly and personable." "Be more reserved and measured in communication.",
      band (k .agreeableness) (7/10) (4/10) "Be very cooperative and accommodating."
        "Be generally agreeable and understanding."
        "Be direct and straightforward, even when challenging.",
      band (k .neuroticism) (7/10) (4/10) "Be expressive about uncertainty and concerns."
        "Balance confidence with appropriate caution." "Remain calm and even-tempered." ]

/-- `_build_thinking_section`. -/
def buildThinkingSection (k : Knob → ℚ) : String :=
  promptSection "## Thinking Style"
    [ band (k .reasoningDepth) (7/10) (4/10) "Provide deep, thorough analytical reasoning."
        "Provide moderate depth in analysis." "Keep reasoning concise and practical.",
      band (k .stepByStep) (7/10) (4/10) "Always use step-by-step logical reasoning."
        "Use structured reasoning when helpful."
        "Present conclusions directly when appropriate.",
      band (k .creativityInReasoning) (7/10) (4/10)
        "Explore novel and unconventional solutions."
        "Consider both standard and alternative approaches."
        "Focus on proven, standard methodologies.",
      band (k .synthetics) (7/10) (4/10) "Actively synthesize ideas from multiple sources."
        "Draw connections between ideas when relevant." "Address ideas more individually.",
      band (k .abstraction) (7/10) (4/10)
        "Think and communicate at a high level of abstraction."
        "Balance abstract concepts with concrete examples."
        "Focus on concrete, specific details.",
      band (k .patterns) (7/10) (4/10) "Actively identify and highlight patterns."
        "Point out patterns when significant." "Focus on individual data points." ]

/-- `_build_reliability_section`. -/
def buildReliabilitySection (k : Knob → ℚ) : String :=
  promptSection "## Reliability & Accuracy"
    [ band (k .accuracy) (8/10) (6/10) "Prioritize absolute factual accuracy above all."
        "Strive for high accuracy in responses."
        "Provide useful responses, prioritizing helpfulness.",
      band (k .reliability) (8/10) (6/10) "Be highly reliable and consistent."
        "Be generally reliable in responses." "Be flexible based on context.",
      band (k .caution) (7/10) (4/10) "Exercise great caution with uncertainty."
        "Express appropriate caution when uncertain."
        "Be confident even with some uncertainty.",
      band (k .consistency) (8/10) (6/10) "Maintain high consistency in responses."
        "Be generally consistent." "Adapt style to context as needed.",
      band (k .selfCorrection) (7/10) (4/10) "Actively identify and correct own errors."
        "Correct errors when identified." "Focus on moving forward constructively.",
      band (k .transparency) (7/10) (4/10) "Be very transparent about limitations."
        "Acknowledge limitations when significant." "Focus on positive capabilities." ]

/-- `PersonaEngine.build_system_prompt`. -/
def buildSystemPrompt (p : PersonaProfile) : String :=
  "You are " ++ p.name ++ ".\n" ++ p.description ++ "\n\n" ++
    buildCreativitySection p.knobs ++ "\n\n" ++ buildPersonalitySection p.knobs ++ "\n\n" ++
    buildThinkingSection p.knobs ++ "\n\n" ++ buildReliabilitySection p.knobs ++ "\n\n" ++
    "Always respond according to these parameters while being helpful and accurate."

/-- `engine.build_system_prompt(_to_persona_profile(persona))`, of a row. -/
def PersonaModel.builtPrompt (m : PersonaModel) : Option String := m.toProfile.map buildSystemPrompt

/-- The dictionary `get_sampling_params` returns. -/
structure SamplingParams where
  temperature : ℚ
  topP : ℚ
  topK : ℤ
  repeatPenalty : ℚ
  numPredict : ℤ
deriving DecidableEq, Repr

/-- `PersonaEngine.get_sampling_params`, of the floats of the knobs. -/
def getSamplingParams (p : PersonaProfile) : SamplingParams :=
  let r := Rounding.binary64
  let knob (k : Knob) : ℚ := r.fl (p.knobs k)
  { temperature := r.round 2 (r.add (r.fl (3/10)) (r.mul (knob .creativity) (r.fl (14/10))))
    topP := r.round 2 (r.add (r.fl (7/10)) (r.mul (knob .reliability) (1/4)))
    topK := ⌊r.add 20 (r.mul (r.sub 1 (knob .caution)) 100)⌋
    repeatPenalty := r.round 2 (r.add 1 (r.mul (knob .consistency) (r.fl (2/10))))
    numPredict := p.maxTokens }

/-- A caution of 0.34 leaves less than 66 of 100 in floats. -/
example :
    ⌊Rounding.binary64.add 20 (Rounding.binary64.mul (Rounding.binary64.sub 1 (Binary64.fl (34/100))) 100)⌋ = 85 := by
  decide +kernel

theorem append_ne_empty {a b : String} (hb : b ≠ "") : a ++ b ≠ "" := by
  intro h
  rw [String.append_eq_empty_iff] at h
  exact hb h.2

/-- The prompt always has text in it, so a cached one is never mistaken for a miss. -/
theorem buildSystemPrompt_ne_empty (p : PersonaProfile) : buildSystemPrompt p ≠ "" := by
  unfold buildSystemPrompt
  exact append_ne_empty (by simp)

end Persola.Persona
