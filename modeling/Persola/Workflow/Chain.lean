import Persola.Lib.Gather
import Persola.Lib.Py

/-!
# `Workflow.Chain` — a chain of delegated steps, with groups that run in parallel

`execute_workflow_chain_parallel` awaits the steps of a chain one after another; consecutive steps with the same group
are gathered. A step reads what is completed when it starts, and while a group runs nothing is completed, so the order
in which its calls come back makes no difference. Their results carry a role only: the step of a result is looked up
by role, and where a group has a role twice the task that is recorded is that of the first one.
-/

namespace Persola.Workflow

open Runs

variable {τ : Type}

/-- `DelegationStep`. -/
structure DelegationStep where
  role : String
  task : String
  dependsOn : List String := []
  parallelGroup : Option String := none
deriving DecidableEq

/-- `WorkflowChain`. -/
structure WorkflowChain where
  goal : String
  steps : List DelegationStep

/-- `WorkflowStepRecord`, apart from its id and its times. -/
structure WorkflowStepRecord (τ : Type) where
  role : String
  task : String
  output : String
  toolCalls : List τ
deriving DecidableEq

/-- `WorkflowState`. -/
structure WorkflowState (τ : Type) where
  goal : String
  steps : List (WorkflowStepRecord τ) := []
  status : String := "pending"

/-- `add_step`. -/
def WorkflowState.addStep (state : WorkflowState τ) (role task output : String) (toolCalls : List τ) :
    WorkflowState τ :=
  { state with steps := state.steps ++ [⟨role, task, output, toolCalls⟩], status := "running" }

/-- `complete`. -/
def WorkflowState.complete (state : WorkflowState τ) : WorkflowState τ := { state with status := "completed" }

/-- What the caller of a chain passes along. -/
structure Caller where
  systemPromptForRole : String → String
  hasToolRunner : Bool

/-! ## Groups -/

/-- A turn of the loop: one step, or a group that is gathered. -/
structure Batch where
  steps : List DelegationStep
  grouped : Bool
deriving DecidableEq

/-- The steps from `chain.steps[i]` on that are taken together, and the rest. -/
def nextBatch : List DelegationStep → Option (Batch × List DelegationStep)
  | [] => none
  | step :: rest =>
      match step.parallelGroup.filter (· ≠ "") with
      | some group => some (⟨step :: rest.takeWhile (·.parallelGroup = some group), true⟩,
          rest.dropWhile (·.parallelGroup = some group))
      | none => some (⟨[step], false⟩, rest)

/-- The turns of the loop; each takes a step at least, so there are no more than steps. -/
def batchesFrom : ℕ → List DelegationStep → List Batch
  | 0, _ => []
  | n + 1, steps =>
      match nextBatch steps with
      | none => []
      | some (batch, rest) => batch :: batchesFrom n rest

/-- The turns of the loop over a chain. -/
def WorkflowChain.batches (chain : WorkflowChain) : List Batch := batchesFrom chain.steps.length chain.steps

/-- The task that is recorded for a step: a gathered result is matched by its role. -/
def Batch.matchingTask (batch : Batch) (step : DelegationStep) : String :=
  if batch.grouped then ((batch.steps.find? (·.role = step.role)).map (·.task)).getD step.task else step.task

/-! ## One step -/

/-- Where `_run_one` stands. -/
inductive Stage (τ : Type)
  | ready
  | asking
  | usingTools (output : String)
  | returned (output : String) (toolCalls : List τ)

/-- What happens to it: it calls the LLM, the LLM answers, the tool runner answers. -/
inductive Event (τ : Type)
  | call
  | answer (output : String)
  | toolCalls (calls : List τ)

/-- `_run_one`, from one await to the next. -/
def runOne (hasToolRunner : Bool) : System (Stage τ) (Event τ) where
  init stage := stage = .ready
  step stage event :=
    match stage, event with
    | .ready, .call => some .asking
    | .asking, .answer output => some (if hasToolRunner then .usingTools output else .returned output [])
    | .usingTools output, .toolCalls calls => some (.returned output calls)
    | _, _ => none

/-- `context_bits`. -/
def contextBits (completed : List (String × String)) (step : DelegationStep) : List String :=
  step.dependsOn.filterMap fun dep => (Py.getItem completed dep).map fun output => "[" ++ dep ++ "]: " ++ output

/-- The prompt of a step with the given context. -/
def promptWith (step : DelegationStep) (bits : List String) : String :=
  let context := "\n".intercalate bits
  if context = "" then step.task else step.task ++ "\n\nPrior context:\n" ++ context

/-! ## The loop -/

/-- A call of the LLM, for the step at the given place of the chain. -/
structure LlmCall where
  place : ℕ
  system : String
  prompt : String
deriving DecidableEq

/-- The variables of the loop, and a log of the calls made and answered so far. -/
structure Progress (τ : Type) where
  state : WorkflowState τ
  completed : List (String × String) := []
  i : ℕ := 0
  calls : List LlmCall := []
  answers : List (ℕ × String) := []

/-- `asyncio.gather` returns when everything has returned. -/
def gathered : List (Stage τ) → Option (List (String × List τ))
  | [] => some []
  | .returned output toolCalls :: stages => (gathered stages).map ((output, toolCalls) :: ·)
  | _ => none

/-- The calls of the LLM among some events. -/
def llmCalls (caller : Caller) (p : Progress τ) (batch : Batch) (events : List (ℕ × Event τ)) : List LlmCall :=
  events.filterMap fun
    | (j, .call) => (batch.steps[j]?).map fun step =>
        ⟨p.i + j, caller.systemPromptForRole step.role, promptWith step (contextBits p.completed step)⟩
    | _ => none

/-- The answers of the LLM among them. -/
def llmAnswers (p : Progress τ) (events : List (ℕ × Event τ)) : List (ℕ × String) :=
  events.filterMap fun
    | (j, .answer output) => some (p.i + j, output)
    | _ => none

/-- The loop over the results of a batch. -/
def collect (batch : Batch) (p : Progress τ) (results : List (String × List τ)) : Progress τ :=
  (batch.steps.zip results).foldl (fun p sr =>
    { p with
      state := p.state.addStep sr.1.role (batch.matchingTask sr.1) sr.2.1 sr.2.2
      completed := Py.setItem p.completed sr.1.role sr.2.1 }) p

/-- One turn of the loop, for an order of events in it; `none` if they are not a whole turn. -/
def runBatch (caller : Caller) (p : Progress τ) (batch : Batch) (events : List (ℕ × Event τ)) :
    Option (Progress τ) := do
  let stages ← (Gather.system (runOne caller.hasToolRunner)).exec (batch.steps.map fun _ => .ready) events
  let results ← gathered stages
  let q := collect batch p results
  return { q with
    i := p.i + batch.steps.length
    calls := p.calls ++ llmCalls caller p batch events
    answers := p.answers ++ llmAnswers p events }

/-- The loop, for an order of events in each turn. -/
def runBatches (caller : Caller) : Progress τ → List Batch → List (List (ℕ × Event τ)) → Option (Progress τ)
  | p, [], [] => some p
  | p, batch :: batches, events :: schedule => do
      let p ← runBatch caller p batch events
      runBatches caller p batches schedule
  | _, _, _ => none

/-- `execute_workflow_chain_parallel`. -/
def executeWorkflowChainParallel (caller : Caller) (chain : WorkflowChain) (schedule : List (List (ℕ × Event τ))) :
    Option (Progress τ) :=
  (runBatches caller { state := { goal := chain.goal } } chain.batches schedule).map fun p =>
    { p with state := p.state.complete }

end Persola.Workflow
