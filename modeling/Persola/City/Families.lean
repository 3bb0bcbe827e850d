import Persola.Persona.Engine
import Persola.City.Model

/-!
# `City.Families` — founding families, spawning children, policies and member profiles

`create_family`, `spawn_child`, `update_family_policy` and `update_member_life` of `CityService`, each one
transaction: `none` is an exception, after which nothing is committed.
-/

namespace Persola.City

open Agent (AgentId AgentModel)
open Persona (PersonaId PersonaModel PersonaProfile buildSystemPrompt)

namespace Store

/-- `PersonaRepository.create` of a persona with default sampling. -/
def createPersona (s : Store) (name description : String) (knobs : Persona.Knob → ℚ)
    (model : String) (temperature : ℚ) (maxTokens : ℤ) : PersonaModel × Store :=
  let persona : PersonaModel :=
    { id := s.fresh, name, description := some description, knobs, model, systemPrompt := none,
      temperature, maxTokens, isPreset := false }
  (persona, { s with personas := s.personas ++ [persona], fresh := s.fresh + 1 })

/-- `AgentRepository.create` of an agent made from a profile. -/
def createAgent (s : Store) (name model : String) (persona : PersonaId) (profile : PersonaProfile)
    (tools : List String) : AgentModel × Store :=
  let agent : AgentModel :=
    { id := s.fresh, name, model := some model, systemPrompt := some (buildSystemPrompt profile),
      personaId := some persona, tools }
  (agent, { s with agents := s.agents ++ [agent], fresh := s.fresh + 1 })

/-- `FamilyMemberRepository.create`. -/
def createMember (s : Store) (m : FamilyMemberModel) : FamilyMemberModel × Store :=
  let member := { m with id := s.fresh }
  (member, { s with members := s.members ++ [member], fresh := s.fresh + 1 })

/-- Change the row of a persona. -/
def setPersona (s : Store) (id : PersonaId) (f : PersonaModel → PersonaModel) : Store :=
  { s with personas := s.personas.map fun p => if p.id = id then f p else p }

/-- Change the row of an agent. -/
def setAgent (s : Store) (id : AgentId) (f : AgentModel → AgentModel) : Store :=
  { s with agents := s.agents.map fun a => if a.id = id then f a else a }

/-- Change the row of a member. -/
def setMember (s : Store) (id : MemberId) (f : FamilyMemberModel → FamilyMemberModel) : Store :=
  { s with members := s.members.map fun m => if m.id = id then f m else m }

end Store

/-- The column defaults of a persona. -/
def defaultPersonaModel : String := "llama3:8b"

/-! ## Founding a family -/

/-- The arguments of `create_family`; the overrides are those of known knobs. -/
structure CreateFamily where
  name : String
  description : Option String := none
  defaultDistrict : String := "build"
  policy : PolicyRequest := {}
  parentAgentId : Option AgentId := none
  parentName : Option String := none
  personaId : Option PersonaId := none
  toolTags : Option (List String) := none
  roleLabel : Option String := some "coordinator"
  parentKnobOverrides : KnobMap := []

/-- A value that has to be read: an absent key is left alone, an unreadable value raises. -/
def readPatch {α : Type*} : Option (Option α) → Option (Option α)
  | none => some none
  | some none => none
  | some (some v) => some (some v)

/-- The persona of a new parent: a given one with the overrides applied, or a new one. -/
def parentPersona (s : Store) (req : CreateFamily) (overrides : KnobMap) :
    Option (PersonaModel × Store) :=
  match req.personaId with
  | none =>
      some (s.createPersona (req.name ++ " Parent Persona")
        (Py.orElse req.description ("Parent persona for family " ++ req.name)) (knobsOr overrides)
        defaultPersonaModel (7/10) 2000)
  | some id => do
      let persona ← s.getPersona id
      let override (p : PersonaModel) : PersonaModel :=
        { p with knobs := fun k => (overrides.lookup k).getD (p.knobs k) }
      return (override persona, s.setPersona id override)

/-- The parent agent: a given one, or a new one made from the persona. -/
def parentAgent (tiers : ModelTier) (s : Store) (req : CreateFamily) (overrides : KnobMap)
    (tags : List String) : Option (AgentModel × Store) :=
  match req.parentAgentId with
  | some id => do
      -- taken as it is: overrides, tags and persona of the request go into no agent then
      let agent ← s.getAgent id
      return (agent, s)
  | none => do
      let (persona, s) ← parentPersona s req overrides
      let profile ← persona.toProfile
      let model := tiers.forRole "parent" req.roleLabel
      -- the profile keeps the old model; only the row gets the new one
      let s := s.setPersona persona.id fun p => { p with model }
      return s.createAgent (Py.orElse req.parentName (req.name ++ " Parent")) model persona.id profile
        (toolNamesForTags tags)

/-- `create_family`. -/
def createFamily (tiers : ModelTier) (s : Store) (req : CreateFamily) (now : Time) :
    Option (FamilyId × Store) := do
  let district ← CityDistrict.ofName? req.defaultDistrict
  let tags := req.toolTags.getD defaultCityToolTags
  let overrides := req.parentKnobOverrides.map fun kv => (kv.1, clampKnob kv.2)
  let (agent, s) ← parentAgent tiers s req overrides tags
  -- read after the agent was created: a value that cannot be read undoes that too
  let maxAgeTicks ← readPatch req.policy.maxAgeTicks
  let family : FamilyModel :=
    { id := s.fresh, name := req.name, description := req.description, defaultDistrict := district,
      policy := { req.policy with maxAgeTicks }, updatedAt := now }
  let s := { s with families := s.families ++ [family], fresh := s.fresh + 1 }
  let (_, s) := s.createMember
    { id := 0, familyId := family.id, agentId := agent.id, parentMemberId := none,
      roleInFamily := .parent, roleLabel := req.roleLabel, knobOverrides := overrides,
      toolTags := tags, generation := 0, maxAgeTicks := maxAgeTicks.getD defaultMaxAgeTicks,
      goals := defaultGoals req.roleLabel,
      dreams := defaultDreams req.roleLabel,
      structuredThinking := defaultStructuredThinking req.roleLabel, growth := 0 }
  return (family.id, s)

/-! ## Spawning a child -/

/-- The arguments of `spawn_child`; the overrides are those of known knobs. -/
structure SpawnChild where
  familyId : FamilyId
  name : String
  knobOverrides : KnobMap := []
  toolTags : Option (List String) := none
  roleLabel : Option String := none
  parentMemberId : Option MemberId := none
  description : Option String := none

/-- The member the child is spawned under. -/
def spawnParent (s : Store) (req : SpawnChild) : Option FamilyMemberModel :=
  match req.parentMemberId with
  | some id => (s.membersOf req.familyId).find? (·.id = id)
  | none => (s.getParent req.familyId).join

/-- `list(parent.tool_tags or DEFAULT_CITY_TOOL_TAGS)`. -/
def tagsOrDefault (tags : List String) : List String :=
  if tags = [] then defaultCityToolTags else tags

/-- `spawn_child`. -/
def spawnChild (tiers : ModelTier) (s : Store) (req : SpawnChild) :
    Option (FamilyMemberModel × Store) := do
  let family ← s.getFamily req.familyId
  let parent ← spawnParent s req
  let parentAgent ← s.getAgent parent.agentId
  let overrides := req.knobOverrides.map fun kv => (kv.1, clampKnob kv.2)
  let tags := req.toolTags.getD (tagsOrDefault parent.toolTags)
  let parentPersona := parentAgent.personaId.bind s.getPersona
  let baseKnobs := (parentPersona.map knobValues).getD []
  let model := tiers.forRole "child" req.roleLabel
  let (persona, s) := s.createPersona (req.name ++ " Persona")
    (Py.orElse req.description ("Child of " ++ parentAgent.name ++ " in family " ++ family.name))
    (knobsOr (mergeKnobs baseKnobs overrides)) model
    ((parentPersona.map PersonaModel.temperature).getD (7/10))
    ((parentPersona.map PersonaModel.maxTokens).getD 2000)
  let profile ← persona.toProfile
  let (agent, s) := s.createAgent req.name model persona.id profile (toolNamesForTags tags)
  return s.createMember
    { id := 0, familyId := family.id, agentId := agent.id, parentMemberId := some parent.id,
      roleInFamily := .child, roleLabel := req.roleLabel, knobOverrides := overrides, toolTags := tags,
      generation := parent.generation + 1,
      maxAgeTicks := family.policy.maxAgeTicks.getD parent.maxAgeTicks,
      goals := defaultGoals req.roleLabel,
      dreams := defaultDreams req.roleLabel,
      structuredThinking := defaultStructuredThinking req.roleLabel, growth := 0 }

/-! ## Policies and profiles -/

/-- `update_family_policy`. -/
def updateFamilyPolicy (s : Store) (id : FamilyId) (patch : PolicyRequest) (now : Time) :
    Option Store := do
  let family ← s.getFamily id
  let maxAge ← readPatch patch.maxAgeTicks
  let cohesion ← readPatch patch.cohesionMin
  let policy : Policy :=
    { maxAgeTicks := (maxAge.map fun v => max 1 (min 200 v)) <|> family.policy.maxAgeTicks
      cohesionMin := (cohesion.map fun v => some (max 0 (min 1 v))) <|> family.policy.cohesionMin
      districtBias := patch.districtBias <|> family.policy.districtBias
      notes := patch.notes <|> family.policy.notes }
  -- an equal policy writes no row, and `onupdate` does not fire
  let updatedAt := if policy = family.policy then family.updatedAt else now
  return { s with
    families := s.families.map fun f => if f.id = id then { f with policy, updatedAt } else f
    members := s.members.map fun m =>
      -- the dead keep the limit they died under
      if m.familyId = id ∧ m.lifeStatus = .alive then
        { m with maxAgeTicks := policy.maxAgeTicks.getD m.maxAgeTicks }
      else m }

/-- `str(g)[:n]`. -/
def truncate (n : ℕ) (s : String) : String := String.ofList (s.toList.take n)

/-- `update_member_life`. -/
def updateMemberLife (s : Store) (id : MemberId) (goals dreams : Option (List String))
    (structuredThinking : Option ℚ) : Option Store := do
  let _ ← s.getMember id
  return s.setMember id fun m =>
    { m with
      goals := (goals.map fun gs => (gs.map (truncate 200)).take 12).getD m.goals
      dreams := (dreams.map fun ds => (ds.map (truncate 200)).take 8).getD m.dreams
      structuredThinking := (structuredThinking.map clampKnob).getD m.structuredThinking }

end Persola.City
