import Persola.Team.Router
import Persola.Workflow.Records
import Persola.Workqueue.Ticks

/-!
# `Team.Orchestrator` — runs of a team, and the audit log they share

`TeamOrchestrator.run` notes the instruction, lets the specialists of the plan work side by side and the coordinator
after them, notes what each decided and what the coordinator replied, and returns. There are two paths for the work: the
graph, where the specialists write to a dictionary as their answers come, and the chain. A run awaits the audit log row
by row, and other runs go on meanwhile; between the rows it touches nothing that another run sees, so its work is one
step here.
-/

namespace Persola.Team

open Runs
open Persona (Knob PersonaProfile buildSystemPrompt)
open Workflow (Stage Event runOne gathered LlmCall Caller DelegationStep WorkflowChain Batch
  executeWorkflowChainParallel)
open Workqueue.Ticks (AuditEventType truncate)

variable {τ : Type}

/-! ## Prompts -/

/-- `PersonalityRole(role_key)`. -/
def PersonalityRole.ofKey (roleKey : String) : Option PersonalityRole := builtin.find? (·.value = roleKey)

/-- `{**base_profile.get_knobs(), **archetype.knob_overrides}`. -/
def blendedKnobs (base : PersonaProfile) (archetype : PersonalityArchetype) (k : Knob) : ℚ :=
  (Py.getItem archetype.knobOverrides k).getD (base.knobs k)

theorem override_range (role : PersonalityRole) : ∀ e ∈ role.archetype.knobOverrides, 0 ≤ e.2 ∧ e.2 ≤ 1 := by
  cases role <;> decide +kernel

theorem blendedKnobs_range (base : PersonaProfile) (role : PersonalityRole) (k : Knob) :
    0 ≤ blendedKnobs base role.archetype k ∧ blendedKnobs base role.archetype k ≤ 1 := by
  unfold blendedKnobs
  cases hk : Py.getItem role.archetype.knobOverrides k with
  | none => exact base.valid.knobs_range k k.mem_fields
  | some x =>
      obtain ⟨e, he, rfl⟩ := Option.map_eq_some_iff.mp hk
      exact override_range role e (List.mem_of_find?_eq_some he)

theorem archetype_lengths (role : PersonalityRole) :
    role.archetype.name.length ≤ 200 ∧ role.archetype.tagline.length ≤ 2000 := by
  cases role <;> decide +kernel

/-- `blended`: the profile of a role, whatever the base. -/
def blended (base : PersonaProfile) (role : PersonalityRole) : PersonaProfile where
  name := role.archetype.name
  description := role.archetype.tagline
  knobs := blendedKnobs base role.archetype
  systemPrompt := ""
  model := "llama3:8b"
  temperature := 7/10
  maxTokens := 2000
  valid := ⟨(archetype_lengths role).1, (archetype_lengths role).2, fun k _ => blendedKnobs_range base role k,
    by norm_num, by norm_num⟩

/-- `_system_prompt_for_role`. -/
def systemPromptForRole (base : PersonaProfile) (roleKey : String) : String :=
  match PersonalityRole.ofKey roleKey with
  | none => buildSystemPrompt base
  | some role => buildSystemPrompt (blended base role) ++ "\n\n## Team role\n" ++ role.archetype.systemDirective ++
      "\n\nCollaboration style: " ++ role.archetype.collaborationStyle

/-! ## Sessions -/

/-- `TeamSessionState`, without the snapshot of the memory. -/
structure TeamSessionState (τ : Type) where
  sessionId : String
  teamId : String := ""
  messages : List (String × String) := []
  activeWorkflow : Option (Workflow.WorkflowState τ) := none

/-- `append_message`. -/
def TeamSessionState.appendMessage (session : TeamSessionState τ) (role content : String) : TeamSessionState τ :=
  { session with messages := session.messages ++ [(role, content)] }

/-- `TeamRunResult`, its plan without the scores. -/
structure TeamRunResult (τ : Type) where
  sessionId : String
  response : String
  workflow : Workflow.WorkflowState τ
  delegationPlan : List PersonalityRole
  session : TeamSessionState τ
  toolResults : List τ
  personalitiesUsed : List String
  runtimeMode : String

/-- What is recorded of a run. -/
structure Entry where
  eventType : AuditEventType
  actor : String
  recipient : String
  summary : String
  detail : Option (List PersonalityRole) := none
deriving DecidableEq

/-- A row of the audit log. -/
structure AuditEvent where
  teamId : String
  sessionId : String
  entry : Entry
  createdAt : ℕ
deriving DecidableEq

/-- The entry of an instruction. -/
def instruction (recipient task : String) (plan : List PersonalityRole) : Entry :=
  ⟨.instruction, "user", recipient, truncate 280 task, some plan⟩

/-- The entry of what a specialist came up with. -/
def decision (role output : String) : Entry :=
  ⟨.decision, role, PersonalityRole.coordinator.value, truncate 280 output, none⟩

/-- The entry of what the user is told. -/
def reply (role output : String) : Entry := ⟨.reply, role, "user", truncate 280 output, none⟩

/-! ## The graph -/

/-- `TeamGraphState` at the end. -/
structure GraphState (τ : Type) where
  specialistOutputs : List (String × String)
  coordinatorOutput : String
  toolResults : List τ

/-- The turn of the specialists in the graph. -/
def graphTurn (task : String) (roles : List PersonalityRole) : Batch where
  steps := roles.map fun role =>
    { role := role.value, task := "As " ++ role.value ++ ", contribute your perspective on: " ++ task }
  grouped := true

/-- What the coordinator of the graph is asked. -/
def graphSynthesis (task : String) (outputs : List (String × String)) : String :=
  let context := "\n\n".intercalate (outputs.map fun e => "### " ++ e.1 ++ "\n" ++ e.2)
  "Synthesize the team's work.\n\nTask: " ++ task ++ "\n\nTeam input:\n" ++ context

/-- What is assigned to `outputs`, in the order in which the answers come. -/
def outputsOf (roles : List PersonalityRole) (events : List (ℕ × Event τ)) : List (String × String) :=
  events.filterMap fun
    | (j, .answer output) => (roles[j]?).map fun role => (role.value, output)
    | _ => none

/-- What `tool_results` is extended by. -/
def toolResultsOf (events : List (ℕ × Event τ)) : List τ :=
  events.flatMap fun
    | (_, .toolCalls calls) => calls
    | _ => []

/-- `run_langgraph_team`, for an order of events among the specialists and an answer to the coordinator. -/
def runLanggraphTeam (roles : List PersonalityRole) (events : List (ℕ × Event τ)) (coordinatorOutput : String) :
    Option (GraphState τ) := do
  let stages ← (Gather.system (runOne true)).exec (roles.map fun _ => .ready) events
  let _ ← gathered stages
  return ⟨Py.assign [] (outputsOf roles events), coordinatorOutput, toolResultsOf events⟩

/-! ## The work -/

/-- What `run` is called with. -/
structure Invocation (τ : Type) where
  baseProfile : PersonaProfile
  useLanggraph : Bool
  task : String
  session : TeamSessionState τ

/-- What comes of the work: the result, what is written to the audit log, and the calls of the LLM that were made with
the answers to them; their place is that in the plan, the coordinator's is the one after. -/
structure Worked (τ : Type) where
  result : TeamRunResult τ
  entries : List Entry
  calls : List LlmCall
  answers : List (ℕ × String)

/-- What the LLM and the tools answer to the team: the events among the specialists and what the coordinator says, or
the turns of the chain. -/
inductive Work (τ : Type)
  | langgraph (events : List (ℕ × Event τ)) (coordinatorOutput : String)
  | chain (schedule : List (List (ℕ × Event τ)))

namespace Invocation

variable (lower : String → String) (inv : Invocation τ)

/-- `plan["specialists"]`. -/
@[irreducible] def plan : List PersonalityRole := selectDelegationPlan (score lower inv.task)

/-- `session.team_id or "default"`. -/
def teamId : String := Py.orElse (some inv.session.teamId) "default"

/-- Who is asked with which system prompt. -/
def caller : Caller := ⟨systemPromptForRole inv.baseProfile, true⟩

/-- The session when the coordinator has answered. -/
def sessionAfter (workflow : Workflow.WorkflowState τ) (coordinatorOutput : String) : TeamSessionState τ :=
  { inv.session.appendMessage "user" inv.task with activeWorkflow := some workflow }.appendMessage "assistant"
    coordinatorOutput

/-- `_run_langgraph_path`. -/
def langgraphPath (events : List (ℕ × Event τ)) (coordinatorOutput : String) : Option (Worked τ) := do
  let graph ← runLanggraphTeam (inv.plan lower) events coordinatorOutput
  let coordinator := PersonalityRole.coordinator.value
  let specialists := graph.specialistOutputs.foldl (fun (workflow : Workflow.WorkflowState τ) e =>
    workflow.addStep e.1 ("As " ++ e.1 ++ ", contribute on: " ++ inv.task) e.2 []) { goal := inv.task }
  let workflow := (specialists.addStep coordinator ("Synthesize team work for: " ++ inv.task)
    graph.coordinatorOutput []).complete
  let asked : Workflow.Progress τ := { state := { goal := inv.task } }
  let place := (inv.plan lower).length
  return {
    result := {
      sessionId := inv.session.sessionId
      response := graph.coordinatorOutput
      workflow := workflow
      delegationPlan := inv.plan lower
      session := inv.sessionAfter workflow graph.coordinatorOutput
      toolResults := graph.toolResults
      personalitiesUsed := graph.specialistOutputs.map (·.1) ++ [coordinator]
      runtimeMode := "langgraph" }
    entries := graph.specialistOutputs.map (fun e => decision e.1 e.2) ++ [reply coordinator graph.coordinatorOutput]
    calls := Workflow.llmCalls inv.caller asked (graphTurn inv.task (inv.plan lower)) events ++
      [⟨place, inv.caller.systemPromptForRole coordinator, graphSynthesis inv.task graph.specialistOutputs⟩]
    answers := Workflow.llmAnswers asked events ++ [(place, graph.coordinatorOutput)] }

/-- The step of a specialist in the chain. -/
def specialistStep (role : PersonalityRole) : DelegationStep where
  role := role.value
  task := "As " ++ role.archetype.name ++ ", contribute your perspective on: " ++ inv.task
  parallelGroup := some "specialists"

/-- The last step of the chain. -/
def coordinatorStep : DelegationStep where
  role := PersonalityRole.coordinator.value
  task := "Synthesize the team's work into one cohesive answer for the user.\n\nUser task: " ++ inv.task
  dependsOn := (inv.plan lower).map (·.value)

/-- The chain of `_run_chain_path`. -/
def chain : WorkflowChain where
  goal := inv.task
  steps := (inv.plan lower).map inv.specialistStep ++ [inv.coordinatorStep lower]

/-- `_run_chain_path`. -/
def chainPath (schedule : List (List (ℕ × Event τ))) : Option (Worked τ) := do
  let p ← executeWorkflowChainParallel inv.caller (inv.chain lower) schedule
  let workflow := p.state
  let coordinatorOutput := (workflow.steps.getLast?.map (·.output)).getD ""
  return {
    result := {
      sessionId := inv.session.sessionId
      response := coordinatorOutput
      workflow := workflow
      delegationPlan := inv.plan lower
      session := inv.sessionAfter workflow coordinatorOutput
      toolResults := workflow.steps.flatMap (·.toolCalls)
      personalitiesUsed := workflow.steps.map (·.role)
      runtimeMode := "workflow_chain" }
    entries := workflow.steps.map fun step =>
      if step.role = PersonalityRole.coordinator.value then reply step.role step.output
      else decision step.role step.output
    calls := p.calls
    answers := p.answers }

/-- The path that is taken. -/
def path : Work τ → Option (Worked τ)
  | .langgraph events coordinatorOutput =>
      if inv.useLanggraph then inv.langgraphPath lower events coordinatorOutput else none
  | .chain schedule => if inv.useLanggraph then none else inv.chainPath lower schedule

end Invocation

/-! ## Runs -/

/-- How far a run has come. -/
inductive RunStage (τ : Type)
  | opened
  /-- The instruction is being written. -/
  | instructing (event : AuditEvent)
  | working
  /-- The work is done; an event may be on its way to the log, others are still to be written. -/
  | recording (worked : Worked τ) (writing : Option AuditEvent) (todo : List Entry)
  | returned (worked : Worked τ)
  | raised

/-- A call of `run`, and when it looked at the clock last. -/
structure TeamRun (τ : Type) where
  invocation : Invocation τ
  stage : RunStage τ := .opened
  lastAt : ℕ := 0

/-- What happens to a run: the top of the chart is found, an event is written to the log, the team works, the next event
is made, something raises. -/
inductive RunEvent (τ : Type)
  | instruct (top : Option String) (now : ℕ)
  | commit
  | work (work : Work τ)
  | record (now : ℕ)
  | raises

namespace TeamRun

variable (lower : String → String) (run : TeamRun τ)

/-- An event of the run. -/
def event (entry : Entry) (now : ℕ) : AuditEvent :=
  ⟨run.invocation.teamId, run.invocation.session.sessionId, entry, now⟩

/-- A run goes on; what it commits comes with it. -/
def step : RunEvent τ → Option (TeamRun τ × Option AuditEvent)
  | .instruct top now =>
      match run.stage with
      | .opened =>
          let recipient := top.getD PersonalityRole.coordinator.value
          let entry := instruction recipient run.invocation.task (run.invocation.plan lower)
          some ({ run with stage := .instructing (run.event entry now), lastAt := now }, none)
      | _ => none
  | .commit =>
      match run.stage with
      | .instructing event => some ({ run with stage := .working }, some event)
      | .recording worked (some event) [] => some ({ run with stage := .returned worked }, some event)
      | .recording worked (some event) (entry :: todo) =>
          some ({ run with stage := .recording worked none (entry :: todo) }, some event)
      | _ => none
  | .work work =>
      match run.stage with
      | .working => (run.invocation.path lower work).map fun worked =>
          ({ run with stage := .recording worked none worked.entries }, none)
      | _ => none
  | .record now =>
      match run.stage with
      | .recording worked none (entry :: todo) =>
          -- time goes on between two events of a run
          if run.lastAt < now then
            some ({ run with stage := .recording worked (some (run.event entry now)) todo, lastAt := now }, none)
          else none
      | _ => none
  | .raises =>
      match run.stage with
      | .returned _ | .raised => none
      | _ => some ({ run with stage := .raised }, none)

end TeamRun

/-! ## All runs -/

/-- The runs there were, and the audit log with the run that wrote each row. -/
structure Teams (τ : Type) where
  runs : List (TeamRun τ)
  log : List (ℕ × AuditEvent)

/-- A run is started, or one goes on. -/
inductive Label (τ : Type)
  | invoke (invocation : Invocation τ)
  | run (i : ℕ) (event : RunEvent τ)

/-- Any number of runs, which go on in any order. -/
def teams (lower : String → String) : System (Teams τ) (Label τ) where
  init s := s.runs = [] ∧ s.log = []
  step s
    | .invoke invocation => some { s with runs := s.runs ++ [{ invocation := invocation }] }
    | .run i event => do
        let run ← s.runs[i]?
        let (run, committed) ← run.step lower event
        return { runs := s.runs.set i run, log := s.log ++ (committed.map (i, ·)).toList }

end Persola.Team
