import Persola.Persona.Model

/-!
# `Persona.Presets` — the built-in personas

`PresetName` and `DEFAULT_PRESETS`. A preset has a key (`value`), under which it is seeded, and a profile with
a display name of its own. Every profile passes the validation of its constructor (`presetFields_valid`).
-/

namespace Persola.Persona

/-- `PresetName`. -/
inductive PresetName
  | default | creative | analytical | friendly | professional | casual | technical | educational
deriving DecidableEq, Repr

/-- The value of a preset name. -/
def PresetName.value : PresetName → String
  | .default => "default"
  | .creative => "creative"
  | .analytical => "analytical"
  | .friendly => "friendly"
  | .professional => "professional"
  | .casual => "casual"
  | .technical => "technical"
  | .educational => "educational"

/-- The keys of `DEFAULT_PRESETS`, in order. -/
def PresetName.all : List PresetName :=
  [.default, .creative, .analytical, .friendly, .professional, .casual, .technical, .educational]

theorem PresetName.mem_all (p : PresetName) : p ∈ PresetName.all := by cases p <;> decide

theorem PresetName.nodup_all : PresetName.all.Nodup := by decide

theorem PresetName.value_injective : Function.Injective PresetName.value := by
  intro p q h
  cases p <;> cases q <;> first | rfl | (revert h; decide)

/-- Knob values in the order of `PERSONA_KNOB_FIELDS`. -/
def knobsInOrder (values : List ℚ) (k : Knob) : ℚ := values.getD (Knob.fields.idxOf k) (1/2)

/-- A preset: texts and knobs; the other fields have their defaults. -/
def preset (name description : String) (values : List ℚ) : ProfileFields where
  name := name
  description := description
  knobs := knobsInOrder values
  systemPrompt := ""
  model := "llama3:8b"
  temperature := 7/10
  maxTokens := 2000

/-- The values of `DEFAULT_PRESETS`. -/
def presetFields : PresetName → ProfileFields
  | .default => preset "Default Assistant" "Balanced and versatile"
      [5/10, 5/10, 5/10, 5/10, 5/10, 5/10,
       5/10, 5/10, 5/10, 5/10, 5/10,
       5/10, 5/10, 5/10, 5/10, 5/10, 5/10,
       8/10, 8/10, 5/10, 8/10, 5/10, 5/10]
  | .creative => preset "Creative Writer" "Imaginative and expressive"
      [9/10, 7/10, 3/10, 7/10, 6/10, 6/10,
       9/10, 4/10, 6/10, 6/10, 4/10,
       4/10, 3/10, 9/10, 7/10, 8/10, 5/10,
       6/10, 6/10, 3/10, 5/10, 4/10, 4/10]
  | .analytical => preset "Analytical Expert" "Logical and thorough"
      [3/10, 2/10, 8/10, 6/10, 4/10, 8/10,
       6/10, 9/10, 3/10, 5/10, 3/10,
       9/10, 9/10, 3/10, 8/10, 8/10, 9/10,
       95/100, 9/10, 8/10, 9/10, 8/10, 8/10]
  | .friendly => preset "Friendly Companion" "Warm and approachable"
      [5/10, 7/10, 2/10, 6/10, 9/10, 5/10,
       7/10, 5/10, 8/10, 9/10, 3/10,
       4/10, 4/10, 5/10, 4/10, 4/10, 5/10,
       7/10, 7/10, 4/10, 7/10, 5/10, 6/10]
  | .professional => preset "Professional Advisor" "Business-appropriate and reliable"
      [3/10, 2/10, 9/10, 5/10, 5/10, 8/10,
       4/10, 9/10, 4/10, 6/10, 2/10,
       8/10, 8/10, 3/10, 7/10, 6/10, 7/10,
       9/10, 95/100, 8/10, 95/100, 7/10, 8/10]
  | .casual => preset "Casual Chat" "Relaxed and informal"
      [6/10, 8/10, 1/10, 7/10, 7/10, 5/10,
       7/10, 3/10, 8/10, 7/10, 4/10,
       3/10, 3/10, 6/10, 3/10, 3/10, 4/10,
       6/10, 6/10, 2/10, 5/10, 4/10, 5/10]
  | .technical => preset "Technical Expert" "Precise and technical"
      [4/10, 2/10, 8/10, 6/10, 3/10, 9/10,
       7/10, 9/10, 3/10, 4/10, 2/10,
       95/100, 95/100, 4/10, 9/10, 9/10, 9/10,
       95/100, 95/100, 9/10, 95/100, 9/10, 9/10]
  | .educational => preset "Tutor" "Patient and instructional"
      [5/10, 4/10, 5/10, 7/10, 9/10, 6/10,
       7/10, 8/10, 6/10, 9/10, 2/10,
       7/10, 9/10, 5/10, 6/10, 6/10, 7/10,
       9/10, 9/10, 6/10, 9/10, 8/10, 9/10]

/-- Every preset passes the validation of its constructor. -/
theorem presetFields_valid (p : PresetName) : (presetFields p).Valid := by
  cases p <;> decide +kernel

/-- `DEFAULT_PRESETS`. -/
def defaultPresets (p : PresetName) : PersonaProfile := ⟨presetFields p, presetFields_valid p⟩

/-- `PersonaEngine.apply_preset`. -/
def applyPreset (p : PresetName) : PersonaProfile := defaultPresets p

end Persola.Persona
