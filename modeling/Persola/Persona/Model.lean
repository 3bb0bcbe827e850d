import Persola.Lib.Py

/-!
# `Persona.Model` — persona rows and validated persona profiles

`PersonaModel` is the stored row, `PersonaProfile` the validated value the engine works on. A profile
carries the proof of its own constraints, so an invalid one cannot be built: `toProfile` is the only way
from a row to a profile and fails exactly where the validation of the source does. Knobs are exact
rationals.
-/

namespace Persola.Persona

/-- The 23 knobs, in the order of `PERSONA_KNOB_FIELDS`. -/
inductive Knob
  | creativity | humor | formality | verbosity | empathy | confidence
  | openness | conscientiousness | extraversion | agreeableness | neuroticism
  | reasoningDepth | stepByStep | creativityInReasoning | synthetics | abstraction | patterns
  | accuracy | reliability | caution | consistency | selfCorrection | transparency
deriving DecidableEq, Repr

/-- `PERSONA_KNOB_FIELDS`. -/
def Knob.fields : List Knob :=
  [.creativity, .humor, .formality, .verbosity, .empathy, .confidence,
   .openness, .conscientiousness, .extraversion, .agreeableness, .neuroticism,
   .reasoningDepth, .stepByStep, .creativityInReasoning, .synthetics, .abstraction, .patterns,
   .accuracy, .reliability, .caution, .consistency, .selfCorrection, .transparency]

theorem Knob.mem_fields (k : Knob) : k ∈ Knob.fields := by cases k <;> decide

abbrev PersonaId := ℕ

/-- A row of `personas`. -/
structure PersonaModel where
  id : PersonaId
  name : String
  description : Option String
  knobs : Knob → ℚ
  model : String
  systemPrompt : Option String
  temperature : ℚ
  maxTokens : ℤ
  isPreset : Bool

/-- The fields of a persona profile before validation. -/
structure ProfileFields where
  name : String
  description : String
  knobs : Knob → ℚ
  systemPrompt : String
  model : String
  temperature : ℚ
  maxTokens : ℤ

/-- The field constraints of `PersonaProfile`: lengths, knobs in `[0, 1]`, sampling ranges. -/
structure ProfileFields.Valid (p : ProfileFields) : Prop where
  name_length : p.name.length ≤ 200
  description_length : p.description.length ≤ 2000
  knobs_range : ∀ k ∈ Knob.fields, 0 ≤ p.knobs k ∧ p.knobs k ≤ 1
  temperature_range : 0 ≤ p.temperature ∧ p.temperature ≤ 2
  maxTokens_range : 1 ≤ p.maxTokens ∧ p.maxTokens ≤ 32000

instance (p : ProfileFields) : Decidable p.Valid :=
  decidable_of_iff
    (p.name.length ≤ 200 ∧ p.description.length ≤ 2000 ∧
      (∀ k ∈ Knob.fields, 0 ≤ p.knobs k ∧ p.knobs k ≤ 1) ∧
      (0 ≤ p.temperature ∧ p.temperature ≤ 2) ∧ (1 ≤ p.maxTokens ∧ p.maxTokens ≤ 32000))
    ⟨fun ⟨h1, h2, h3, h4, h5⟩ => ⟨h1, h2, h3, h4, h5⟩,
     fun ⟨h1, h2, h3, h4, h5⟩ => ⟨h1, h2, h3, h4, h5⟩⟩

/-- A validated persona profile. -/
structure PersonaProfile extends ProfileFields where
  valid : toProfileFields.Valid

/-- What `to_profile` passes to the profile constructor. -/
def PersonaModel.profileFields (m : PersonaModel) : ProfileFields where
  name := m.name
  description := Py.orElse m.description ""
  knobs := m.knobs
  systemPrompt := Py.orElse m.systemPrompt ""
  model := m.model
  temperature := m.temperature
  maxTokens := m.maxTokens

/-- `PersonaModel.to_profile`: `none` is the `ValidationError` of the profile constructor. -/
def PersonaModel.toProfile (m : PersonaModel) : Option PersonaProfile :=
  if h : m.profileFields.Valid then some ⟨m.profileFields, h⟩ else none

theorem PersonaModel.toProfile_isSome {m : PersonaModel} :
    m.toProfile.isSome ↔ m.profileFields.Valid := by
  unfold PersonaModel.toProfile
  by_cases h : m.profileFields.Valid <;> simp [h]

end Persola.Persona
