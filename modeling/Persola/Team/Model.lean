import Persola.Lib.Select
import Mathlib.Algebra.Order.Field.Rat
import Mathlib.Data.List.Nodup

/-!
# `Team.Model` — the personalities of a team and the workflow a run records

Which specialists a task goes to depends on the scores of the personalities; whatever they are, the plan names
distinct specialists, and never the coordinator, who has the last step of every run.
-/

namespace Persola.Team

/-- `PersonalityRole`. -/
inductive PersonalityRole
  | coordinator | analyst | creative | executor | empath
deriving DecidableEq, Repr

def PersonalityRole.value : PersonalityRole → String
  | .coordinator => "coordinator"
  | .analyst => "analyst"
  | .creative => "creative"
  | .executor => "executor"
  | .empath => "empath"

/-- The roles in the order of `BUILTIN_ARCHETYPES`. -/
def PersonalityRole.builtin : List PersonalityRole := [.coordinator, .analyst, .creative, .executor, .empath]

/-- `route_task`, for given scores. -/
def routeTask (score : PersonalityRole → ℚ) (topK : ℕ := 3) : List PersonalityRole :=
  (Select.orderByDesc score (PersonalityRole.builtin.filter (· ≠ .coordinator))).take topK

/-- The specialists of `select_delegation_plan`. -/
def selectDelegationPlan (score : PersonalityRole → ℚ) : List PersonalityRole :=
  let specialists := (routeTask score).filter fun role => 12/100 < score role
  if specialists = [] then [.analyst, .executor] else specialists

/-- A step of a workflow, as far as it is kept in the memory of the session. -/
structure WorkflowStepRecord where
  role : PersonalityRole
  output : String
deriving DecidableEq, Repr

/-- What a run of the orchestrator records: one step for each specialist of the plan, then the coordinator's. -/
structure WorkflowState where
  specialists : List WorkflowStepRecord
  coordinatorOutput : String
  distinct : (specialists.map (·.role)).Nodup
  delegated : ∀ step ∈ specialists, step.role ≠ .coordinator

def WorkflowState.steps (workflow : WorkflowState) : List WorkflowStepRecord :=
  workflow.specialists ++ [⟨.coordinator, workflow.coordinatorOutput⟩]

/-- **The plan names distinct specialists**, whatever the scores. -/
theorem selectDelegationPlan_spec (score : PersonalityRole → ℚ) :
    (selectDelegationPlan score).Nodup ∧ .coordinator ∉ selectDelegationPlan score := by
  have hroute : (routeTask score).Nodup ∧ .coordinator ∉ routeTask score := by
    have hperm := Select.orderByDesc_perm score (PersonalityRole.builtin.filter (· ≠ .coordinator))
    constructor
    · exact (hperm.nodup_iff.mpr (by decide)).sublist (List.take_sublist _ _)
    · intro hmem
      have hmem := hperm.mem_iff.mp (List.mem_of_mem_take hmem)
      revert hmem
      decide
  unfold selectDelegationPlan
  dsimp only
  split
  · decide
  · exact ⟨hroute.1.filter _, fun hmem => hroute.2 (List.mem_of_mem_filter hmem)⟩

/-- A workflow for the specialists of a plan, in any order in which they were done. -/
def WorkflowState.ofPlan {score : PersonalityRole → ℚ} {specialists : List WorkflowStepRecord}
    (h : (specialists.map (·.role)).Perm (selectDelegationPlan score)) (coordinatorOutput : String) :
    WorkflowState where
  specialists := specialists
  coordinatorOutput := coordinatorOutput
  distinct := h.nodup_iff.mpr (selectDelegationPlan_spec score).1
  delegated := by
    intro step hstep hrole
    exact (selectDelegationPlan_spec score).2 (h.mem_iff.mp (hrole ▸ List.mem_map_of_mem hstep))

/-- No role has two steps. -/
theorem WorkflowState.steps_nodup (workflow : WorkflowState) : (workflow.steps.map (·.role)).Nodup := by
  unfold steps
  rw [List.map_append]
  refine workflow.distinct.append (List.nodup_singleton _) ?_
  intro role hrole hcoordinator
  obtain ⟨step, hstep, rfl⟩ := List.mem_map.mp hrole
  exact workflow.delegated step hstep (List.mem_singleton.mp hcoordinator)

end Persola.Team
