import Persola.Persona.Model

/-!
# `Agent.Model` — rows of `agents`, and the configurations requests give for them
-/

namespace Persola.Agent

abbrev AgentId := ℕ

/-- A row of `agents`. -/
structure AgentModel where
  id : AgentId
  name : String
  role : String := "assistant"
  model : Option String
  temperature : Option ℚ := none
  maxTokens : Option ℤ := none
  systemPrompt : Option String
  personaId : Option Persona.PersonaId
  tools : List String := []
  memoryEnabled : Bool := true
  isActive : Bool := true

/-- `AgentConfig`, as far as a row is made of it. -/
structure AgentConfig where
  name : String := "Persola Agent"
  role : String := "assistant"
  model : String := "llama3:8b"
  temperature : ℚ := 7/10
  maxTokens : ℤ := 2000
  systemPrompt : String := ""
  personaId : Option Persona.PersonaId := none
  tools : List String := []
  memoryEnabled : Bool := true

/-- `AgentModel.from_config`, for a row that gets the id `id`. -/
def AgentModel.fromConfig (id : AgentId) (config : AgentConfig) : AgentModel where
  id := id
  name := config.name
  role := config.role
  model := some config.model
  temperature := some config.temperature
  maxTokens := some config.maxTokens
  systemPrompt := some config.systemPrompt
  personaId := config.personaId
  tools := config.tools
  memoryEnabled := config.memoryEnabled
  isActive := true

/-- What the validation of the request, the columns of `agents` and those of `agent_tools` admit. -/
def AgentConfig.Storable (config : AgentConfig) : Prop :=
  config.name.length ≤ 200 ∧ config.role = "assistant" ∧ config.model.length ≤ 100 ∧
  (0 ≤ config.temperature ∧ config.temperature ≤ 2) ∧ (1 ≤ config.maxTokens ∧ config.maxTokens ≤ 32000) ∧
  config.tools.Nodup ∧ ∀ tool ∈ config.tools, tool.length ≤ 100

instance (config : AgentConfig) : Decidable config.Storable :=
  inferInstanceAs (Decidable (_ ∧ _ ∧ _ ∧ (_ ∧ _) ∧ (_ ∧ _) ∧ _ ∧ _))

end Persola.Agent
