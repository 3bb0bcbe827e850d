import Persola.Lib.Pool
import Persola.Team.AuditLog

/-!
# `Team.Pages` — what the page of a team session shows

`TeamService.invoke` finds or inserts the row of the session, inserts a workflow, lets the team work, and writes the
steps and the rest of the workflow when it is done, all in one transaction; the page of the session reads what is
committed. So the page shows the runs that returned, whole, with what they returned, and nothing of any other
(`sessionDetail_told`). The count of messages is another matter: a run adds to the count it read when it started, and
what runs that returned meanwhile have added is lost (`messageCount_throughout_iff`).
-/

namespace Persola.Team

open Runs

variable {τ : Type}

/-! ## Rows -/

/-- A row of `team_sessions`, of the session at hand. -/
structure TeamSessionModel where
  personaId : Option ℕ
  messageCount : ℕ
deriving DecidableEq

/-- `TeamWorkflowStatus`. -/
inductive TeamWorkflowStatus
  | pending | running | completed | failed
deriving DecidableEq

/-- A row of `team_workflows`. -/
structure TeamWorkflowModel (τ : Type) where
  goal : String
  status : TeamWorkflowStatus
  delegationPlan : List PersonalityRole := []
  finalResponse : Option String := none
  personalitiesUsed : List String := []
  toolResults : List τ := []
  createdAt : ℕ

/-- A row of `team_workflow_steps`. -/
structure TeamWorkflowStepModel (τ : Type) where
  stepOrder : ℕ
  role : String
  task : String
  output : String
  toolCalls : List τ
  parallelGroup : Option String

/-- The row `add_step` inserts; `group` is `get("parallel_group")` of a tool call. -/
def stepRow (group : τ → Option String) (stepOrder : ℕ) (step : Workflow.WorkflowStepRecord τ) :
    TeamWorkflowStepModel τ where
  stepOrder := stepOrder
  role := step.role
  task := step.task
  output := step.output
  toolCalls := step.toolCalls
  parallelGroup := step.toolCalls.head?.bind group

/-- The rows of some steps. -/
def stepRows (group : τ → Option String) (steps : List (Workflow.WorkflowStepRecord τ)) :
    List (TeamWorkflowStepModel τ) :=
  steps.zipIdx.map fun e => stepRow group e.2 e.1

/-- The workflow as `invoke` inserts it. -/
def startedWorkflow (task : String) (now : ℕ) : TeamWorkflowModel τ where
  goal := task
  status := .running
  createdAt := now

/-- `mark_completed`. -/
def TeamWorkflowModel.markCompleted (row : TeamWorkflowModel τ) (result : TeamRunResult τ) : TeamWorkflowModel τ :=
  { row with
    status := .completed
    finalResponse := some result.response
    personalitiesUsed := result.personalitiesUsed
    toolResults := result.toolResults
    delegationPlan := result.delegationPlan }

/-! ## Runs -/

/-- How far a run has come. -/
inductive ServiceStage (τ : Type)
  | opened
  /-- No row of the session was found. -/
  | absent
  /-- The row was found. -/
  | found
  | resolved
  | working
  /-- The team is done, and these steps are still to be written. -/
  | storing (worked : Worked τ) (todo : List (Workflow.WorkflowStepRecord τ))
  | counted (worked : Worked τ)
  | marked (worked : Worked τ)
  | returned (worked : Worked τ)
  | failed

namespace ServiceStage

/-- The run has returned or raised. -/
def isOver : ServiceStage τ → Bool
  | returned _ | failed => true
  | opened | absent | found | resolved | working | storing _ _ | counted _ | marked _ => false

/-- The run has written its message count. -/
def hasCounted : ServiceStage τ → Bool
  | counted _ | marked _ | returned _ => true
  | opened | absent | found | resolved | working | storing _ _ | failed => false

end ServiceStage

/-- A run of `invoke`: the row of the session as it has it, and what it has inserted; `readAfter` is how many runs had
returned when it came by the row. -/
structure ServiceRun (τ : Type) where
  invocation : Invocation τ
  personaId : Option ℕ
  stage : ServiceStage τ := .opened
  row : TeamSessionModel := ⟨none, 0⟩
  readAfter : ℕ := 0
  createsSession : Bool := false
  setsPersona : Bool := false
  workflow : Option (TeamWorkflowModel τ) := none
  steps : List (TeamWorkflowStepModel τ) := []

/-- A run that raises is rolled back. -/
def ServiceRun.rollback (run : ServiceRun τ) : ServiceRun τ where
  invocation := run.invocation
  personaId := run.personaId
  stage := .failed

/-- The run has updated the row of the session, and holds it. -/
def ServiceRun.holdsSession (run : ServiceRun τ) : Bool :=
  !run.stage.isOver && (run.setsPersona || run.stage.hasCounted)

/-- The run has inserted the row of the session, and has not committed it. -/
def ServiceRun.inserting (run : ServiceRun τ) : Bool := !run.stage.isOver && run.createsSession

/-- What is committed, each workflow with its steps, and the runs. -/
structure SessionDb (τ : Type) where
  session : Option TeamSessionModel
  workflows : List (TeamWorkflowModel τ × List (TeamWorkflowStepModel τ))
  runs : List (ServiceRun τ)

namespace SessionDb

/-- Some other run meets the test. -/
def another (s : SessionDb τ) (i : ℕ) (p : ServiceRun τ → Bool) : Bool := (s.runs.eraseIdx i).any p

/-- A run moves on. -/
def move (s : SessionDb τ) (i : ℕ) (run : ServiceRun τ) : SessionDb τ := { s with runs := s.runs.set i run }

/-- The commit of a run. -/
def commit (s : SessionDb τ) (i : ℕ) (run : ServiceRun τ) (worked : Worked τ) : SessionDb τ where
  session :=
    if run.createsSession then some run.row
    else s.session.map fun row =>
      { personaId := if run.setsPersona then run.personaId else row.personaId, messageCount := run.row.messageCount }
  workflows := s.workflows ++ (run.workflow.map fun row => (row, run.steps)).toList
  runs := s.runs.set i { run with stage := .returned worked }

/-- The next statement of a run; `none` while it waits for another one, and where it is the team's turn. -/
def advance (group : τ → Option String) (s : SessionDb τ) (i : ℕ) (run : ServiceRun τ) (now : ℕ) :
    Option (SessionDb τ) :=
  match run.stage with
  | .opened =>
      match s.session with
      | none => some (s.move i { run with stage := .absent })
      | some row => some (s.move i { run with stage := .found, row := row, readAfter := s.workflows.length })
  | .found =>
      if run.personaId.isSome ∧ run.row.personaId ≠ run.personaId then
        if s.another i ServiceRun.holdsSession then none
        else some (s.move i { run with
          stage := .resolved, setsPersona := true, row := { run.row with personaId := run.personaId } })
      else some (s.move i { run with stage := .resolved })
  | .absent =>
      -- the id of the session is unique: the insert waits for another one, and fails once that is committed
      if s.another i ServiceRun.inserting then none
      else if s.session.isSome then some (s.move i run.rollback)
      else some (s.move i { run with
        stage := .resolved, createsSession := true, row := ⟨run.personaId, 0⟩, readAfter := s.workflows.length })
  | .resolved =>
      some (s.move i { run with stage := .working, workflow := some (startedWorkflow run.invocation.task now) })
  | .storing worked (step :: todo) =>
      some (s.move i { run with
        stage := .storing worked todo, steps := run.steps ++ [stepRow group run.steps.length step] })
  | .storing worked [] =>
      -- `message_count` is what the run read; another run's commit does not refresh it
      if s.another i ServiceRun.holdsSession then none
      else some (s.move i { run with
        stage := .counted worked, row := { run.row with messageCount := run.row.messageCount + 2 } })
  | .counted worked =>
      some (s.move i { run with
        stage := .marked worked, workflow := run.workflow.map (·.markCompleted worked.result) })
  | .marked worked => some (s.commit i run worked)
  | .working | .returned _ | .failed => none

end SessionDb

/-- What happens next. -/
inductive ServiceLabel (τ : Type)
  | invoke (invocation : Invocation τ) (personaId : Option ℕ)
  | advance (i : ℕ) (now : ℕ)
  /-- The team of a run works. -/
  | work (i : ℕ) (work : Work τ)
  /-- A run breaks off, for whatever reason. -/
  | raises (i : ℕ)

/-- **The runs on a session**, from when nobody has used it. -/
def teamService (group : τ → Option String) (lower : String → String) : System (SessionDb τ) (ServiceLabel τ) where
  init s := s.session = none ∧ s.workflows = [] ∧ s.runs = []
  step s
    | .invoke invocation personaId =>
        some { s with runs := s.runs ++ [{ invocation := invocation, personaId := personaId }] }
    | .advance i now => s.runs[i]?.bind fun run => s.advance group i run now
    | .work i work => s.runs[i]?.bind fun run =>
        match run.stage with
        | .working => (run.invocation.path lower work).map fun worked =>
            s.move i { run with stage := .storing worked worked.result.workflow.steps }
        | .opened | .absent | .found | .resolved | .storing _ _ | .counted _ | .marked _ | .returned _ | .failed => none
    | .raises i => s.runs[i]?.bind fun run =>
        if run.stage.isOver then none else some (s.move i run.rollback)

/-! ## The page -/

/-- A workflow as the page shows it. -/
structure WorkflowDetail (τ : Type) where
  goal : String
  status : TeamWorkflowStatus
  finalResponse : Option String
  personalitiesUsed : List String
  delegationPlan : List PersonalityRole
  toolResults : List τ
  createdAt : ℕ
  steps : List (TeamWorkflowStepModel τ)

/-- What `get_session_detail` returns. -/
structure SessionDetail (τ : Type) where
  personaId : Option ℕ
  messageCount : ℕ
  workflows : List (WorkflowDetail τ)

/-- A workflow and its steps, `sorted(w.steps, key=lambda x: x.step_order)`. -/
def workflowDetail (e : TeamWorkflowModel τ × List (TeamWorkflowStepModel τ)) : WorkflowDetail τ where
  goal := e.1.goal
  status := e.1.status
  finalResponse := e.1.finalResponse
  personalitiesUsed := e.1.personalitiesUsed
  delegationPlan := e.1.delegationPlan
  toolResults := e.1.toolResults
  createdAt := e.1.createdAt
  steps := Select.orderBy (·.stepOrder) e.2

/-- `TeamWorkflowRepository.list_for_session`. -/
def SessionDb.listForSession (s : SessionDb τ) (limit : ℕ := 20) :
    List (TeamWorkflowModel τ × List (TeamWorkflowStepModel τ)) :=
  (Select.orderByDesc (fun e => e.1.createdAt) s.workflows).take limit

/-- `get_session_detail`. -/
def SessionDb.getSessionDetail (s : SessionDb τ) : Option (SessionDetail τ) :=
  s.session.map fun row =>
    { personaId := row.personaId
      messageCount := row.messageCount
      workflows := s.listForSession.map workflowDetail }

/-! ## Steps -/

section
variable {group : τ → Option String} {lower : String → String} {s t : SessionDb τ} {run run' : ServiceRun τ} {i : ℕ}

/-- Each run that commits found the row of the session as the last run that returned left it. -/
def SessionDb.Latest (s : SessionDb τ) : ServiceLabel τ → Prop
  | .advance i _ => ∀ run, s.runs[i]? = some run → ∀ worked, run.stage = .marked worked →
      run.readAfter = s.workflows.length
  | .invoke _ _ | .work _ _ | .raises _ => True

/-- The ways a run moves on without committing. -/
inductive ServiceRun.Moves (group : τ → Option String) (lower : String → String) (s : SessionDb τ)
    (run : ServiceRun τ) : ServiceRun τ → Prop
  | missed (hstage : run.stage = .opened) : Moves group lower s run { run with stage := .absent }
  | found {row : TeamSessionModel} (hstage : run.stage = .opened) (hrow : s.session = some row) :
      Moves group lower s run { run with stage := .found, row := row, readAfter := s.workflows.length }
  | named (hstage : run.stage = .found) : Moves group lower s run { run with
      stage := .resolved, setsPersona := true, row := { run.row with personaId := run.personaId } }
  | kept (hstage : run.stage = .found) : Moves group lower s run { run with stage := .resolved }
  | created (hstage : run.stage = .absent) (hnone : s.session = none) : Moves group lower s run { run with
      stage := .resolved, createsSession := true, row := ⟨run.personaId, 0⟩, readAfter := s.workflows.length }
  | started (hstage : run.stage = .resolved) (now : ℕ) : Moves group lower s run { run with
      stage := .working, workflow := some (startedWorkflow run.invocation.task now) }
  | worked {work : Work τ} {worked : Worked τ} (hstage : run.stage = .working)
      (hpath : run.invocation.path lower work = some worked) :
      Moves group lower s run { run with stage := .storing worked worked.result.workflow.steps }
  | stored {worked : Worked τ} {step : Workflow.WorkflowStepRecord τ} {todo : List (Workflow.WorkflowStepRecord τ)}
      (hstage : run.stage = .storing worked (step :: todo)) : Moves group lower s run { run with
        stage := .storing worked todo, steps := run.steps ++ [stepRow group run.steps.length step] }
  | counted {worked : Worked τ} (hstage : run.stage = .storing worked []) : Moves group lower s run { run with
      stage := .counted worked, row := { run.row with messageCount := run.row.messageCount + 2 } }
  | marked {worked : Worked τ} (hstage : run.stage = .counted worked) : Moves group lower s run { run with
      stage := .marked worked, workflow := run.workflow.map (·.markCompleted worked.result) }
  | rolledBack (hopen : run.stage.isOver = false) : Moves group lower s run run.rollback

/-- What the next statement of a run can do: move it on without committing, or commit it. -/
theorem SessionDb.advance_cases (lower : String → String) {now : ℕ} (h : s.advance group i run now = some t) :
    (∃ run', (∀ worked, run.stage ≠ .marked worked) ∧ run.Moves group lower s run' ∧ t = s.move i run') ∨
      ∃ worked, run.stage = .marked worked ∧ t = s.commit i run worked := by
  unfold SessionDb.advance at h
  cases hstage : run.stage with
  | opened =>
      refine .inl ?_
      simp only [hstage] at h
      cases hsession : s.session with
      | none =>
          simp only [hsession] at h
          exact ⟨_, by simp, .missed hstage, (Option.some.inj h).symm⟩
      | some row =>
          simp only [hsession] at h
          exact ⟨_, by simp, .found hstage hsession, (Option.some.inj h).symm⟩
  | found =>
      refine .inl ?_
      simp only [hstage] at h
      split at h
      · obtain ⟨-, h⟩ := Option.ite_none_left_eq_some.mp h
        exact ⟨_, by simp, .named hstage, (Option.some.inj h).symm⟩
      · exact ⟨_, by simp, .kept hstage, (Option.some.inj h).symm⟩
  | absent =>
      refine .inl ?_
      simp only [hstage] at h
      obtain ⟨-, h⟩ := Option.ite_none_left_eq_some.mp h
      cases hsession : s.session with
      | none =>
          simp only [hsession, Option.isSome_none, Bool.false_eq_true, if_false] at h
          exact ⟨_, by simp, .created hstage hsession, (Option.some.inj h).symm⟩
      | some row =>
          simp only [hsession, Option.isSome_some, if_true] at h
          exact ⟨_, by simp, .rolledBack (by rw [hstage]; rfl), (Option.some.inj h).symm⟩
  | resolved =>
      simp only [hstage] at h
      exact .inl ⟨_, by simp, .started hstage now, (Option.some.inj h).symm⟩
  | working => simp only [hstage] at h; cases h
  | storing worked todo =>
      refine .inl ?_
      simp only [hstage] at h
      cases todo with
      | nil =>
          obtain ⟨-, h⟩ := Option.ite_none_left_eq_some.mp h
          exact ⟨_, by simp, .counted hstage, (Option.some.inj h).symm⟩
      | cons step todo => exact ⟨_, by simp, .stored hstage, (Option.some.inj h).symm⟩
  | counted worked =>
      simp only [hstage] at h
      exact .inl ⟨_, by simp, .marked hstage, (Option.some.inj h).symm⟩
  | marked worked =>
      simp only [hstage] at h
      exact .inr ⟨worked, rfl, (Option.some.inj h).symm⟩
  | returned worked => simp only [hstage] at h; cases h
  | failed => simp only [hstage] at h; cases h

/-- **What a step can do**: open a run, move one on without committing, or commit one. -/
theorem teamService_cases {l : ServiceLabel τ} (h : (teamService group lower).step s l = some t) :
    (∃ invocation personaId, s.Latest l ∧
      t = { s with runs := s.runs ++ [{ invocation := invocation, personaId := personaId }] }) ∨
    (∃ i run run', s.runs[i]? = some run ∧ run.Moves group lower s run' ∧ s.Latest l ∧ t = s.move i run') ∨
    ∃ i run worked, s.runs[i]? = some run ∧ run.stage = .marked worked ∧
      (s.Latest l ↔ run.readAfter = s.workflows.length) ∧ t = s.commit i run worked := by
  cases l with
  | invoke invocation personaId => exact .inl ⟨invocation, personaId, trivial, (Option.some.inj h).symm⟩
  | work i work =>
      obtain ⟨run, hrun, h⟩ := Option.bind_eq_some_iff.mp h
      refine .inr (.inl ?_)
      cases hstage : run.stage with
      | working =>
          simp only [hstage] at h
          obtain ⟨worked, hpath, rfl⟩ := Option.map_eq_some_iff.mp h
          exact ⟨i, run, _, hrun, .worked hstage hpath, trivial, rfl⟩
      | _ => simp only [hstage] at h; cases h
  | raises i =>
      obtain ⟨run, hrun, h⟩ := Option.bind_eq_some_iff.mp h
      obtain ⟨hopen, h⟩ := Option.ite_none_left_eq_some.mp h
      exact .inr (.inl ⟨i, run, _, hrun, .rolledBack (Bool.eq_false_iff.mpr hopen), trivial, (Option.some.inj h).symm⟩)
  | advance i now =>
      obtain ⟨run, hrun, h⟩ := Option.bind_eq_some_iff.mp h
      refine .inr ?_
      rcases SessionDb.advance_cases lower h with ⟨run', hstage, hmoves, rfl⟩ | ⟨worked, hstage, rfl⟩
      · refine .inl ⟨i, run, run', hrun, hmoves, fun r hr worked hmarked => ?_, rfl⟩
        obtain rfl := Option.some.inj (hrun.symm.trans hr)
        exact absurd hmarked (hstage worked)
      · refine .inr ⟨i, run, worked, hrun, hstage, ⟨fun hlatest => hlatest run hrun worked hstage, ?_⟩, rfl⟩
        intro hread r hr _ _
        obtain rfl := Option.some.inj (hrun.symm.trans hr)
        exact hread

end

/-! ## What a run has written -/

section
variable {group : τ → Option String} {lower : String → String} {s t : SessionDb τ} {run run' : ServiceRun τ} {i : ℕ}

/-- The work of a run is that of its team. -/
def ServiceRun.Did (lower : String → String) (run : ServiceRun τ) (worked : Worked τ) : Prop :=
  ∃ work, run.invocation.path lower work = some worked

/-- The run has inserted its workflow, and not completed it. -/
def ServiceRun.Started (run : ServiceRun τ) : Prop :=
  ∃ now, run.workflow = some (startedWorkflow run.invocation.task now)

/-- The run has completed its workflow, with what its team came up with, and has inserted all its steps. -/
def ServiceRun.Completed (group : τ → Option String) (run : ServiceRun τ) (worked : Worked τ) : Prop :=
  (∃ now, run.workflow = some ((startedWorkflow run.invocation.task now).markCompleted worked.result)) ∧
    run.steps = stepRows group worked.result.workflow.steps

/-- What a run has written, stage by stage. -/
def ServiceRun.Inv (group : τ → Option String) (lower : String → String) (run : ServiceRun τ) : Prop :=
  match run.stage with
  | .opened | .absent | .found | .resolved => run.steps = []
  | .working => run.Started ∧ run.steps = []
  | .storing worked todo => run.Did lower worked ∧ run.Started ∧
      ∃ stored, worked.result.workflow.steps = stored ++ todo ∧ run.steps = stepRows group stored
  | .counted worked => run.Did lower worked ∧ run.Started ∧ run.steps = stepRows group worked.result.workflow.steps
  | .marked worked | .returned worked => run.Did lower worked ∧ run.Completed group worked
  | .failed => True

theorem stepRows_concat (steps : List (Workflow.WorkflowStepRecord τ)) (step : Workflow.WorkflowStepRecord τ) :
    stepRows group (steps ++ [step]) = stepRows group steps ++ [stepRow group (stepRows group steps).length step] := by
  simp [stepRows, List.zipIdx_append]

/-- **A run keeps to its stages.** -/
theorem ServiceRun.Inv.moves (h : run.Inv group lower) (hmoves : run.Moves group lower s run') :
    run'.Inv group lower := by
  unfold ServiceRun.Inv at h
  cases hmoves with
  | missed hstage => rw [hstage] at h; exact h
  | found hstage hrow => rw [hstage] at h; exact h
  | named hstage => rw [hstage] at h; exact h
  | kept hstage => rw [hstage] at h; exact h
  | created hstage hnone => rw [hstage] at h; exact h
  | started hstage now => rw [hstage] at h; exact ⟨⟨now, rfl⟩, h⟩
  | @worked work worked hstage hpath =>
      rw [hstage] at h
      exact ⟨⟨work, hpath⟩, h.1, [], rfl, h.2⟩
  | @stored worked step todo hstage =>
      rw [hstage] at h
      obtain ⟨hdid, hstarted, stored, hsteps, hrows⟩ := h
      refine ⟨hdid, hstarted, stored ++ [step], by rw [hsteps, List.append_assoc]; rfl, ?_⟩
      rw [stepRows_concat, ← hrows]
  | @counted worked hstage =>
      rw [hstage] at h
      obtain ⟨hdid, hstarted, stored, hsteps, hrows⟩ := h
      rw [List.append_nil] at hsteps
      exact ⟨hdid, hstarted, hsteps ▸ hrows⟩
  | @marked worked hstage =>
      rw [hstage] at h
      obtain ⟨hdid, ⟨now, hworkflow⟩, hrows⟩ := h
      refine ⟨hdid, ⟨now, ?_⟩, hrows⟩
      show run.workflow.map _ = _
      rw [hworkflow]
      rfl
  | rolledBack hopen => trivial

/-! ## What is committed -/

/-- What a run has committed. -/
def ServiceRun.committed (run : ServiceRun τ) : Option (TeamWorkflowModel τ × List (TeamWorkflowStepModel τ)) :=
  match run.stage with
  | .returned _ => run.workflow.map fun row => (row, run.steps)
  | .opened | .absent | .found | .resolved | .working | .storing _ _ | .counted _ | .marked _ | .failed => none

/-- The run has found a row of the session that is there, or is about to insert it. -/
def ServiceRun.Resolved (session : Option TeamSessionModel) (run : ServiceRun τ) : Prop :=
  match run.stage with
  | .opened | .absent | .failed => True
  | .found | .resolved | .working | .storing _ _ | .counted _ | .marked _ | .returned _ =>
      run.createsSession = true ∨ session.isSome = true

/-- The workflows are those of the runs that returned, and there is a session exactly if there is one of them. -/
structure SessionDb.Inv (group : τ → Option String) (lower : String → String) (s : SessionDb τ) : Prop where
  runs : ∀ run ∈ s.runs, run.Inv group lower
  resolved : ∀ run ∈ s.runs, run.Resolved s.session
  workflows : s.workflows.Perm (s.runs.filterMap ServiceRun.committed)
  session : s.session = none ↔ s.workflows = []

theorem ServiceRun.Resolved.moves (h : run.Resolved s.session) (hmoves : run.Moves group lower s run') :
    run'.Resolved s.session := by
  unfold ServiceRun.Resolved at h
  cases hmoves with
  | missed hstage => trivial
  | found hstage hrow => exact .inr (by rw [hrow]; rfl)
  | named hstage | kept hstage | started hstage _ | worked hstage _ | stored hstage | counted hstage
  | marked hstage => rw [hstage] at h; exact h
  | created hstage hnone => exact .inl rfl
  | rolledBack hopen => trivial

theorem ServiceRun.Moves.not_committed (h : run.Moves group lower s run') :
    run.committed = none ∧ run'.committed = none := by
  unfold ServiceRun.committed
  cases h with
  | rolledBack hopen =>
      refine ⟨?_, rfl⟩
      cases hstage : run.stage with
      | returned worked => rw [hstage] at hopen; cases hopen
      | _ => rfl
  | missed hstage | found hstage _ | named hstage | kept hstage | created hstage _ | started hstage _
  | worked hstage _ | stored hstage | counted hstage | marked hstage => exact ⟨by rw [hstage], rfl⟩

/-- What a run that is about to commit commits. -/
theorem ServiceRun.committed_of_marked (h : run.Inv group lower) {worked : Worked τ}
    (hstage : run.stage = .marked worked) :
    ∃ row, run.workflow = some row ∧ { run with stage := .returned worked }.committed = some (row, run.steps) := by
  unfold ServiceRun.Inv at h
  rw [hstage] at h
  obtain ⟨-, ⟨now, hworkflow⟩, -⟩ := h
  refine ⟨_, hworkflow, ?_⟩
  show run.workflow.map _ = _
  rw [hworkflow]
  rfl

/-- **Every step keeps the invariant.** -/
theorem SessionDb.Inv.step {l : ServiceLabel τ} (h : s.Inv group lower)
    (hstep : (teamService group lower).step s l = some t) : t.Inv group lower := by
  rcases teamService_cases hstep with
    ⟨invocation, personaId, -, rfl⟩ | ⟨i, run, run', hrun, hmoves, -, rfl⟩ | ⟨i, run, worked, hrun, hstage, -, rfl⟩
  · refine ⟨?_, ?_, ?_, h.session⟩
    · exact List.forall_mem_append.mpr ⟨h.runs, List.forall_mem_singleton.mpr rfl⟩
    · exact List.forall_mem_append.mpr ⟨h.resolved, List.forall_mem_singleton.mpr trivial⟩
    · rw [List.filterMap_append]
      exact h.workflows.trans (List.Perm.of_eq (List.append_nil _).symm)
  · have hmem := List.mem_of_getElem? hrun
    obtain ⟨hold, hnew⟩ := hmoves.not_committed
    refine ⟨?_, ?_, ?_, h.session⟩
    · exact Pool.forall_set h.runs ((h.runs run hmem).moves hmoves)
    · exact Pool.forall_set h.resolved ((h.resolved run hmem).moves hmoves)
    · show s.workflows.Perm ((s.runs.set i run').filterMap _)
      rw [Pool.filterMap_set_same hrun (hnew.trans hold.symm)]
      exact h.workflows
  · have hmem := List.mem_of_getElem? hrun
    obtain ⟨row, hworkflow, hcommitted⟩ := ServiceRun.committed_of_marked (h.runs run hmem) hstage
    have hold : run.committed = none := by
      unfold ServiceRun.committed
      rw [hstage]
    have hrows : (run.workflow.map fun row => (row, run.steps)).toList = [(row, run.steps)] := by
      rw [hworkflow]
      rfl
    have hresolved := h.resolved run hmem
    unfold ServiceRun.Resolved at hresolved
    rw [hstage] at hresolved
    have hsession : (s.commit i run worked).session.isSome = true := by
      unfold SessionDb.commit
      dsimp only
      split
      · rfl
      · next hcreates =>
          rw [Option.isSome_map]
          exact hresolved.resolve_left hcreates
    refine ⟨?_, ?_, ?_, ?_⟩
    · refine Pool.forall_set h.runs ?_
      have hinv := h.runs run hmem
      unfold ServiceRun.Inv at hinv
      rw [hstage] at hinv
      exact hinv
    · refine Pool.forall_set (fun r hr => ?_) (.inr hsession)
      have hr := h.resolved r hr
      unfold ServiceRun.Resolved at hr ⊢
      cases hr' : r.stage with
      | opened | absent | failed => trivial
      | found | resolved | working | storing _ _ | counted _ | marked _ | returned _ => exact .inr hsession
    · show (s.workflows ++ (run.workflow.map fun row => (row, run.steps)).toList).Perm
        ((s.runs.set i { run with stage := .returned worked }).filterMap ServiceRun.committed)
      rw [hrows]
      exact (h.workflows.append_right _).trans (Pool.filterMap_set hrun hold hcommitted).symm
    · refine iff_of_false (fun hnone => ?_) ?_
      · rw [hnone] at hsession
        cases hsession
      · show s.workflows ++ (run.workflow.map fun row => (row, run.steps)).toList ≠ []
        rw [hrows]
        exact List.append_ne_nil_of_right_ne_nil _ (List.cons_ne_nil _ _)

theorem SessionDb.inv_of_init (h : (teamService group lower).init s) : s.Inv group lower := by
  obtain ⟨hsession, hworkflows, hruns⟩ := h
  refine ⟨?_, ?_, ?_, ?_⟩
  · rw [hruns]
    exact fun _ hr => absurd hr List.not_mem_nil
  · rw [hruns]
    exact fun _ hr => absurd hr List.not_mem_nil
  · rw [hruns, hworkflows]
    exact .nil
  · exact iff_of_true hsession hworkflows

theorem SessionDb.inv_of_reachable (h : (teamService group lower).Reachable s) : s.Inv group lower :=
  h.invariant (fun _ hs => inv_of_init hs) fun _ _ _ hs _ hstep => hs.step hstep

end

/-! ## The page tells -/

section
variable {group : τ → Option String} {lower : String → String} {s t : SessionDb τ} {run run' : ServiceRun τ} {i : ℕ}

/-- The run, and the work of its team, if it has returned. -/
def ServiceRun.returned (run : ServiceRun τ) : Option (ServiceRun τ × Worked τ) :=
  match run.stage with
  | .returned worked => some (run, worked)
  | .opened | .absent | .found | .resolved | .working | .storing _ _ | .counted _ | .marked _ | .failed => none

/-- The runs that have returned. -/
def SessionDb.returnedRuns (s : SessionDb τ) : List (ServiceRun τ × Worked τ) := s.runs.filterMap ServiceRun.returned

/-- A workflow on the page tells of a run: its task, whom the plan named and what they and the coordinator said, and
that it is completed; all as it was returned. -/
structure Tells (group : τ → Option String) (lower : String → String) (r : ServiceRun τ × Worked τ)
    (d : WorkflowDetail τ) : Prop where
  goal : d.goal = r.1.invocation.task
  status : d.status = .completed
  response : d.finalResponse = some r.2.result.response
  used : d.personalitiesUsed = r.2.result.personalitiesUsed
  plan : d.delegationPlan = r.2.result.delegationPlan
  toolResults : d.toolResults = r.2.result.toolResults
  steps : d.steps = stepRows group r.2.result.workflow.steps
  synthesis : ∃ w, Synthesis lower r.1.invocation r.2 w ∧
    d.steps.map (fun step => (step.role, step.output)) = w.steps.map (·.told)

theorem stepRows_orders (steps : List (Workflow.WorkflowStepRecord τ)) :
    (stepRows group steps).map (·.stepOrder) = List.range' 0 steps.length := by
  unfold stepRows
  rw [List.map_map]
  exact List.zipIdx_map_snd 0 steps

theorem stepRows_told (steps : List (Workflow.WorkflowStepRecord τ)) :
    (stepRows group steps).map (fun step => (step.role, step.output)) =
      steps.map fun step => (step.role, step.output) := by
  unfold stepRows
  rw [List.map_map]
  have hfst := congrArg (List.map fun step : Workflow.WorkflowStepRecord τ => (step.role, step.output))
    (List.zipIdx_map_fst 0 steps)
  rwa [List.map_map] at hfst

/-- The page has the steps in the order in which they were recorded. -/
theorem orderBy_stepRows (steps : List (Workflow.WorkflowStepRecord τ)) :
    Select.orderBy (·.stepOrder) (stepRows group steps) = stepRows group steps := by
  refine Select.orderBy_eq_self ?_
  rw [← List.pairwise_map (f := TeamWorkflowStepModel.stepOrder) (R := (· ≤ ·)), stepRows_orders]
  exact List.pairwise_le_range'

/-- **What a run that returned has committed tells of it.** -/
theorem tells_of_returned (h : run.Inv group lower) {worked : Worked τ} (hstage : run.stage = .returned worked) :
    ∃ row, run.committed = some row ∧ Tells group lower (run, worked) (workflowDetail row) := by
  unfold ServiceRun.Inv at h
  rw [hstage] at h
  obtain ⟨⟨work, hpath⟩, ⟨now, hworkflow⟩, hsteps⟩ := h
  have hcommitted : run.committed =
      some ((startedWorkflow run.invocation.task now).markCompleted worked.result, run.steps) := by
    unfold ServiceRun.committed
    rw [hstage, hworkflow]
    rfl
  obtain ⟨w, hw⟩ := path_synthesis hpath
  have hordered : Select.orderBy (·.stepOrder) run.steps = stepRows group worked.result.workflow.steps := by
    rw [hsteps, orderBy_stepRows]
  refine ⟨_, hcommitted, rfl, rfl, rfl, rfl, rfl, rfl, hordered, w, hw, ?_⟩
  show (Select.orderBy (·.stepOrder) run.steps).map _ = _
  rw [hordered, stepRows_told, hw.steps]

/-- The committed rows tell of the runs that returned, one of each. -/
theorem tells_all {runs : List (ServiceRun τ)} (h : ∀ run ∈ runs, run.Inv group lower) :
    List.Forall₂ (Tells group lower) (runs.filterMap ServiceRun.returned)
      ((runs.filterMap ServiceRun.committed).map workflowDetail) := by
  induction runs with
  | nil => exact .nil
  | cons run runs ih =>
      obtain ⟨hrun, hruns⟩ := List.forall_mem_cons.mp h
      cases hstage : run.stage with
      | returned worked =>
          obtain ⟨row, hcommitted, htells⟩ := tells_of_returned hrun hstage
          have hreturned : run.returned = some (run, worked) := by
            unfold ServiceRun.returned
            rw [hstage]
          rw [List.filterMap_cons_some hreturned, List.filterMap_cons_some hcommitted]
          exact .cons htells (ih hruns)
      | opened | absent | found | resolved | working | storing _ _ | counted _ | marked _ | failed =>
          have hreturned : run.returned = none := by
            unfold ServiceRun.returned
            rw [hstage]
          have hcommitted : run.committed = none := by
            unfold ServiceRun.committed
            rw [hstage]
          rw [List.filterMap_cons_none hreturned, List.filterMap_cons_none hcommitted]
          exact ih hruns

/-- What the page of a session shows: the newest workflows, twenty at most, newest first; they and the ones behind them
are one for each run that has returned, and tell what it returned. -/
structure SessionDetail.Told (group : τ → Option String) (lower : String → String)
    (runs : List (ServiceRun τ × Worked τ)) (page : SessionDetail τ) : Prop where
  length : page.workflows.length = min 20 runs.length
  newestFirst : page.workflows.Pairwise fun a b => b.createdAt ≤ a.createdAt
  told : ∃ hidden details, (page.workflows ++ hidden).Perm details ∧ List.Forall₂ (Tells group lower) runs details ∧
    ∀ a ∈ page.workflows, ∀ b ∈ hidden, b.createdAt ≤ a.createdAt

/-- There is one workflow for each run that has returned. -/
theorem SessionDb.Inv.length_workflows (h : s.Inv group lower) : s.workflows.length = s.returnedRuns.length := by
  have hlength := (tells_all h.runs).length_eq
  rw [List.length_map, ← h.workflows.length_eq] at hlength
  exact hlength.symm

/-- **The page of a session tells of the runs that returned**, whatever runs there are and however they overlap: there
is a page once one has returned, every workflow on it is one that a run has returned, whole, and of a run that is under
way or was broken off it shows nothing. -/
theorem sessionDetail_told (h : (teamService group lower).Reachable s) :
    (s.getSessionDetail = none ↔ s.returnedRuns = []) ∧
      ∀ page, s.getSessionDetail = some page → page.Told group lower s.returnedRuns := by
  have hinv := SessionDb.inv_of_reachable h
  have htells := tells_all hinv.runs
  have hcount := hinv.length_workflows
  constructor
  · unfold SessionDb.getSessionDetail
    rw [Option.map_eq_none_iff, hinv.session, ← List.length_eq_zero_iff, hcount, List.length_eq_zero_iff]
  · intro page hpage
    obtain ⟨row, hrow, rfl⟩ := Option.map_eq_some_iff.mp hpage
    -- all the workflows, newest first
    let ordered := Select.orderByDesc (fun e : TeamWorkflowModel τ × List (TeamWorkflowStepModel τ) => e.1.createdAt)
      s.workflows
    have hperm : ordered.Perm s.workflows := Select.orderByDesc_perm _ _
    have hsorted : (ordered.map workflowDetail).Pairwise fun a b => b.createdAt ≤ a.createdAt := by
      rw [List.pairwise_map]
      exact Select.orderByDesc_pairwise _ _
    rw [← List.take_append_drop 20 ordered, List.map_append, List.pairwise_append] at hsorted
    obtain ⟨hshown, -, hbetween⟩ := hsorted
    refine ⟨?_, hshown, (ordered.drop 20).map workflowDetail, _, ?_, htells, hbetween⟩
    · show ((ordered.take 20).map workflowDetail).length = _
      rw [List.length_map, List.length_take, hperm.length_eq, hcount]
    · show ((ordered.take 20).map workflowDetail ++ _).Perm _
      rw [← List.map_append, List.take_append_drop]
      exact (hperm.trans hinv.workflows).map _

end

/-! ## The count of messages -/

section
variable {group : τ → Option String} {lower : String → String} {s t : SessionDb τ} {run run' : ServiceRun τ} {i : ℕ}
  {R : ℕ → ℕ → Prop}

/-- `message_count`, of a session that is not there too. -/
def SessionDb.messageCount (s : SessionDb τ) : ℕ := (s.session.map (·.messageCount)).getD 0

/-- What a run has added to the count it read. -/
def ServiceStage.added (stage : ServiceStage τ) : ℕ := if stage.hasCounted then 2 else 0

/-- The count a run has, against the runs that had returned when it came by it. -/
def ServiceRun.Counts (R : ℕ → ℕ → Prop) (n : ℕ) (run : ServiceRun τ) : Prop :=
  R run.row.messageCount (2 * run.readAfter + run.stage.added) ∧ run.readAfter ≤ n

/-- A relation that holds of two counts when two more messages are counted. -/
structure Additive (R : ℕ → ℕ → Prop) : Prop where
  zero : R 0 0
  add : ∀ a b, R a b → R (a + 2) (b + 2)

theorem additive_eq : Additive (· = ·) := ⟨rfl, fun a b h => by omega⟩

theorem additive_le : Additive (· ≤ ·) := ⟨le_rfl, fun a b h => by omega⟩

/-- A run that moves on keeps to the count it has read. -/
theorem ServiceRun.Counts.moves (hR : Additive R) (hs : R s.messageCount (2 * s.workflows.length))
    (hnone : s.session = none → s.workflows = []) (h : run.Counts R s.workflows.length)
    (hmoves : run.Moves group lower s run') : run'.Counts R s.workflows.length := by
  obtain ⟨hcount, hread⟩ := h
  cases hmoves with
  | missed hstage | named hstage | kept hstage | started hstage _ | worked hstage _ | stored hstage | marked hstage =>
      rw [hstage] at hcount
      exact ⟨hcount, hread⟩
  | counted hstage =>
      rw [hstage] at hcount
      exact ⟨hR.add _ _ hcount, hread⟩
  | @found row hstage hrow =>
      have hrow : s.messageCount = row.messageCount := by
        unfold SessionDb.messageCount
        rw [hrow]
        rfl
      rw [hrow] at hs
      exact ⟨hs, le_rfl⟩
  | created hstage hsession =>
      refine ⟨?_, le_rfl⟩
      show R 0 (2 * s.workflows.length + 0)
      rw [hnone hsession]
      exact hR.zero
  | rolledBack hopen => exact ⟨hR.zero, Nat.zero_le _⟩

/-- A commit puts the count of the run in place. -/
theorem commit_counts (hinv : s.Inv group lower) (hrun : s.runs[i]? = some run) {worked : Worked τ}
    (hstage : run.stage = .marked worked) : (s.commit i run worked).messageCount = run.row.messageCount ∧
      (s.commit i run worked).workflows.length = s.workflows.length + 1 := by
  have hmem := List.mem_of_getElem? hrun
  obtain ⟨row, hworkflow, -⟩ := ServiceRun.committed_of_marked (hinv.runs run hmem) hstage
  have hresolved := hinv.resolved run hmem
  unfold ServiceRun.Resolved at hresolved
  rw [hstage] at hresolved
  constructor
  · unfold SessionDb.messageCount SessionDb.commit
    dsimp only
    split
    · rfl
    · next hcreates =>
        obtain ⟨row, hrow⟩ := Option.isSome_iff_exists.mp (hresolved.resolve_left hcreates)
        rw [hrow]
        rfl
  · show (s.workflows ++ (run.workflow.map fun row => (row, run.steps)).toList).length = _
    rw [hworkflow, List.length_append]
    rfl

/-- A step keeps what the runs have read, and the count of the session if the run that commits had read the last. -/
theorem counts_step (hR : Additive R) (hinv : s.Inv group lower) (hs : R s.messageCount (2 * s.workflows.length))
    (hruns : ∀ run ∈ s.runs, run.Counts R s.workflows.length) {l : ServiceLabel τ}
    (hstep : (teamService group lower).step s l = some t) :
    (∀ run ∈ t.runs, run.Counts R t.workflows.length) ∧
      ((s.Latest l ∧ t.messageCount = s.messageCount ∧ t.workflows = s.workflows) ∨
        ∃ n ≤ s.workflows.length, (s.Latest l ↔ n = s.workflows.length) ∧ R t.messageCount (2 * n + 2) ∧
          t.workflows.length = s.workflows.length + 1) := by
  rcases teamService_cases hstep with
    ⟨invocation, personaId, hlatest, rfl⟩ | ⟨i, run, run', hrun, hmoves, hlatest, rfl⟩ |
    ⟨i, run, worked, hrun, hstage, hlatest, rfl⟩
  · refine ⟨List.forall_mem_append.mpr ⟨hruns, List.forall_mem_singleton.mpr ?_⟩, .inl ⟨hlatest, rfl, rfl⟩⟩
    exact ⟨hR.zero, Nat.zero_le _⟩
  · refine ⟨Pool.forall_set hruns ?_, .inl ⟨hlatest, rfl, rfl⟩⟩
    show run'.Counts R s.workflows.length
    exact (hruns run (List.mem_of_getElem? hrun)).moves hR hs hinv.session.mp hmoves
  · obtain ⟨hcount, hread⟩ := hruns run (List.mem_of_getElem? hrun)
    rw [hstage] at hcount
    obtain ⟨hmessages, hlength⟩ := commit_counts hinv hrun hstage
    refine ⟨?_, .inr ⟨run.readAfter, hread, hlatest, hmessages ▸ hcount, hlength⟩⟩
    rw [hlength]
    refine Pool.forall_set (fun r hr => ?_) ⟨hcount, Nat.le_succ_of_le hread⟩
    exact ⟨(hruns r hr).1, Nat.le_succ_of_le (hruns r hr).2⟩

/-- The count never says more than there was. -/
theorem messageCount_le (h : (teamService group lower).Reachable s) :
    s.messageCount ≤ 2 * s.workflows.length ∧ ∀ run ∈ s.runs, run.Counts (· ≤ ·) s.workflows.length := by
  refine (System.Reach.invariant (I := fun s => s.Inv group lower ∧ s.messageCount ≤ 2 * s.workflows.length ∧
    ∀ run ∈ s.runs, run.Counts (· ≤ ·) s.workflows.length) (fun s₀ h₀ => ?_) (fun s l t hs _ hstep => ?_) h).2
  · obtain ⟨hsession, hworkflows, hruns⟩ := h₀
    refine ⟨SessionDb.inv_of_init ⟨hsession, hworkflows, hruns⟩, ?_, ?_⟩
    · unfold SessionDb.messageCount
      rw [hsession]
      exact Nat.zero_le _
    · rw [hruns]
      exact fun _ hr => absurd hr List.not_mem_nil
  · obtain ⟨hinv, hcount, hruns⟩ := hs
    obtain ⟨hruns', hstep'⟩ := counts_step additive_le hinv hcount hruns hstep
    refine ⟨hinv.step hstep, ?_, hruns'⟩
    rcases hstep' with ⟨-, hmessages, hworkflows⟩ | ⟨n, hn, -, hmessages, hlength⟩
    · rw [hmessages, hworkflows]
      exact hcount
    · omega

/-- **Messages are counted exactly if no two runs overlap**: the count of the session never says more than two for each
run that has returned, and throughout an execution it says just that exactly if every run that commits found the session
as the last run that returned had left it. -/
theorem messageCount_throughout_iff {s₀ : SessionDb τ} {ls : List (ServiceLabel τ)}
    (h₀ : (teamService group lower).init s₀) (h : (teamService group lower).exec s₀ ls = some s) :
    s.messageCount ≤ 2 * s.returnedRuns.length ∧
      ((teamService group lower).Throughout (fun s => s.messageCount = 2 * s.returnedRuns.length) s₀ ls ↔
        (teamService group lower).Meets SessionDb.Latest s₀ ls) := by
  have hreach := System.reachable_of_exec h₀ h
  have hinv₀ : s₀.Inv group lower := SessionDb.inv_of_init h₀
  obtain ⟨hsession, hworkflows, hruns⟩ := h₀
  constructor
  · rw [← (SessionDb.inv_of_reachable hreach).length_workflows]
    exact (messageCount_le hreach).1
  · refine System.throughout_iff
      (I := fun s => s.Inv group lower ∧ ∀ run ∈ s.runs, run.Counts (· = ·) s.workflows.length)
      (fun s l t hs hcount hstep => ?_) ⟨hinv₀, ?_⟩ ?_ h
    · obtain ⟨hinv, hruns⟩ := hs
      have hinv' := hinv.step hstep
      rw [← hinv.length_workflows] at hcount
      obtain ⟨hruns', hstep'⟩ := counts_step additive_eq hinv hcount hruns hstep
      refine ⟨⟨hinv', hruns'⟩, ?_⟩
      rw [← hinv'.length_workflows]
      rcases hstep' with ⟨hlatest, hmessages, hworkflows⟩ | ⟨n, hn, hlatest, hmessages, hlength⟩
      · rw [hmessages, hworkflows]
        exact iff_of_true hcount hlatest
      · rw [hlatest]
        omega
    · rw [hruns]
      exact fun _ hr => absurd hr List.not_mem_nil
    · rw [← hinv₀.length_workflows, hworkflows]
      unfold SessionDb.messageCount
      rw [hsession]
      rfl

end

/-! ## Two runs that overlap -/

/-- A run goes on for some statements. -/
def goesOn (i n : ℕ) : List (ServiceLabel ℕ) := (List.range n).map fun now => .advance i now

/-- A run on a new session, and two that start together after it. -/
def overlappingRuns : List (ServiceLabel ℕ) :=
  [.invoke (dataTask true) none] ++ goesOn 0 3 ++ [.work 0 (.langgraph answered "two")] ++ goesOn 0 5 ++
    [.invoke (dataTask true) none, .invoke (dataTask false) none] ++ goesOn 1 3 ++ goesOn 2 3 ++
    [.work 1 (.langgraph answered "two"), .work 2 (.chain [answered, answered])] ++ goesOn 1 5 ++ goesOn 2 5

/-- All three are on the page, and the messages of two. -/
theorem sessionDetail_told_overlapping : ∃ s page,
    (teamService (fun _ => none) id).exec ⟨none, [], []⟩ overlappingRuns = some s ∧
    s.getSessionDetail = some page ∧ page.workflows.length = 3 ∧ page.messageCount = 4 ∧
    page.Told (fun _ => none) id s.returnedRuns := by
  have hex : ((teamService (fun _ => none) id).exec ⟨none, [], []⟩ overlappingRuns).any (fun s =>
      decide (s.getSessionDetail.map (fun page => (page.workflows.length, page.messageCount)) = some (3, 4))) =
        true := by
    decide +kernel
  obtain ⟨s, hrun, hs⟩ := System.exists_of_exec hex
  obtain ⟨page, hpage, hshown⟩ := Option.map_eq_some_iff.mp (of_decide_eq_true hs)
  obtain ⟨hlength, hcount⟩ := Prod.mk.inj hshown
  exact ⟨s, page, hrun, hpage, hlength, hcount,
    (sessionDetail_told (System.reachable_of_exec ⟨rfl, rfl, rfl⟩ hrun)).2 page hpage⟩

/-- The third of the runs did not find the session as the second had left it. -/
theorem messageCount_throughout_overlapping :
    ¬ (teamService (fun _ => none) id).Meets SessionDb.Latest ⟨none, [], []⟩ overlappingRuns := by
  have hex : ((teamService (fun _ => none) id).exec ⟨none, [], []⟩ overlappingRuns).any (fun s =>
      decide (s.messageCount ≠ 2 * s.returnedRuns.length)) = true := by
    decide +kernel
  obtain ⟨s, hrun, hs⟩ := System.exists_of_exec hex
  intro hmeets
  have hall := (messageCount_throughout_iff ⟨rfl, rfl, rfl⟩ hrun).2.mpr hmeets
  exact of_decide_eq_true hs (hall overlappingRuns [] s (List.append_nil _).symm hrun)

end Persola.Team
