import Persola.Lib.Py
import Persola.Persona.Model
import Mathlib.Algebra.Order.Ring.Rat

/-!
# `City.Life` — goals, dreams, tools and the drift of knobs from one generation to the next

The tables and pure functions of `city_life`, `_TOOL_TAG_TO_NAMES` and the model tiers. Dictionaries of
knobs are lists of pairs in insertion order, which `mutate_knobs` depends on. Floats are exact rationals.
-/

namespace Persola.City

open Persona (Knob)

/-- `DEFAULT_MAX_AGE_TICKS`. -/
def defaultMaxAgeTicks : ℤ := 6

/-- `DEFAULT_CITY_TOOL_TAGS`. -/
def defaultCityToolTags : List String := ["workspace", "run", "memory", "viz"]

/-- `_TOOL_TAG_TO_NAMES`. -/
def toolTagToNames : String → List String
  | "workspace" => ["workspace_write", "workspace_read", "workspace_list"]
  | "run" => ["run_python"]
  | "memory" => ["memory_store", "memory_recall", "memory_search"]
  | "viz" => ["emit_viz_event"]
  | _ => []

/-- `tool_names_for_tags`: the names of the tags in order, each once. -/
def toolNamesForTags (tags : List String) : List String :=
  (tags.flatMap toolTagToNames).foldl
    (fun names name => if name ∈ names then names else names ++ [name]) []

/-! ## Roles -/

/-- `s.lower()`; no character outside ASCII lower-cases into a letter of the role names alone. -/
def lower (s : String) : String := String.ofList (s.toList.map Char.toLower)

/-- `ROLE_GOALS`, with the goals of a builder for any other role. -/
def roleGoals : String → List String
  | "coordinator" => ["keep the family cohesive", "ship the district goal"]
  | "analyst" => ["find patterns in the commons", "reduce wasted work"]
  | "creative" => ["make artifacts that inspire", "spark sibling ideas"]
  | "executor" => ["finish the runnable piece", "keep the build green"]
  | "empath" => ["sense friction early", "mend cohesion gaps"]
  | _ => ["grow durable tools", "leave clear handoffs"]

/-- `ROLE_DREAMS`, with the dreams of a builder for any other role. -/
def roleDreams : String → List String
  | "coordinator" => ["a city that outlives any one mind"]
  | "analyst" => ["truth that compounds across generations"]
  | "creative" => ["beauty that siblings remix forever"]
  | "executor" => ["zero lost knowledge when someone falls"]
  | "empath" => ["grief that becomes wisdom, not silence"]
  | _ => ["scaffolding the next generation climbs"]

/-- `default_goals`. -/
def defaultGoals (roleLabel : Option String) : List String :=
  roleGoals (lower (Py.orElse roleLabel "builder"))

/-- `default_dreams`. -/
def defaultDreams (roleLabel : Option String) : List String :=
  roleDreams (lower (Py.orElse roleLabel "builder"))

/-- `default_structured_thinking`. -/
def defaultStructuredThinking (roleLabel : Option String) : ℚ :=
  match lower (Py.orElse roleLabel "") with
  | "analyst" | "coordinator" => 72/100
  | "executor" | "builder" => 58/100
  | "creative" => 48/100
  | _ => 55/100

/-- `ModelTier`. -/
structure ModelTier where
  parent : String
  child : String

/-- `ModelTier.for_role`. -/
def ModelTier.forRole (tiers : ModelTier) (roleInFamily : String) (roleLabel : Option String) :
    String :=
  if roleInFamily = "parent" ∨ Py.orElse roleLabel "" = "coordinator" then tiers.parent
  else tiers.child

/-! ## Knobs -/

/-- A dictionary of knobs, in insertion order. -/
abbrev KnobMap := List (Knob × ℚ)

/-- `_clamp_knob`. -/
def clampKnob (v : ℚ) : ℚ := max 0 (min 1 v)

/-- `{**a, **b}`. -/
def mergeKnobs (a b : KnobMap) : KnobMap :=
  a.map (fun kv => (kv.1, (b.lookup kv.1).getD kv.2)) ++ b.filter fun kv => (a.lookup kv.1).isNone

/-- `PersonaModel.knob_values`. -/
def knobValues (m : Persona.PersonaModel) : KnobMap := Knob.fields.map fun k => (k, m.knobs k)

/-- `{field: knobs.get(field, 0.5) for field in PERSONA_KNOB_FIELDS}`. -/
def knobsOr (knobs : KnobMap) (k : Knob) : ℚ := (knobs.lookup k).getD (1/2)

/-- `mutate_knobs`. -/
def mutateKnobs (knobs : KnobMap) (generation : ℕ) : KnobMap :=
  let salt := generation * 17 % 11
  knobs.mapIdx fun i kv =>
    let delta : ℚ := ((((salt + i) % 5 : ℕ) : ℤ) - 2 : ℤ) * (3/100)
    (kv.1, clampKnob (kv.2 + delta))

theorem clampKnob_range (v : ℚ) : 0 ≤ clampKnob v ∧ clampKnob v ≤ 1 := by
  refine ⟨le_max_left _ _, max_le (by norm_num) (min_le_left _ _)⟩

/-- Every knob of a mutated dictionary is in `[0, 1]`. -/
theorem mutateKnobs_range {knobs : KnobMap} {generation : ℕ} {k : Knob} {v : ℚ}
    (h : (k, v) ∈ mutateKnobs knobs generation) : 0 ≤ v ∧ v ≤ 1 := by
  obtain ⟨i, hi, heq⟩ := List.mem_mapIdx.mp h
  obtain ⟨-, rfl⟩ := Prod.mk.inj heq
  exact clampKnob_range _

/-- So is the persona made from it, knobs that are missing included. -/
theorem knobsOr_mutateKnobs_range (knobs : KnobMap) (generation : ℕ) (k : Knob) :
    0 ≤ knobsOr (mutateKnobs knobs generation) k ∧ knobsOr (mutateKnobs knobs generation) k ≤ 1 := by
  unfold knobsOr
  cases h : (mutateKnobs knobs generation).lookup k with
  | none => norm_num
  | some v =>
      obtain ⟨l₁, l₂, heq, -⟩ := List.lookup_eq_some_iff.mp h
      have hmem : (k, v) ∈ mutateKnobs knobs generation := by rw [heq]; simp
      exact mutateKnobs_range hmem

end Persola.City
