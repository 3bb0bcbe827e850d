import Persola.Lib.Binary64
import Persola.Lib.Session
import Persola.City.LifeTick
import Mathlib.Data.Prod.Lex
import Mathlib.Data.String.Basic
import Mathlib.Order.OrderDual

/-!
# `City.Commons` — jobs, the tools that work on them, and the cohesion gate

The calls of `CityService` that a wave over the city is made of, each on the session of its request, with the
commits where the source has them. A call of a tool records what it records and commits it; whether it does,
with which result and for which path and content, is up to the environment of the wave. The tools themselves
are those of `City.Tools`.
-/

namespace Persola.City

open Agent (AgentId)

/-- The waves: `city_pulse` and `conduct_city`. -/
inductive Wave
  | pulse | conduct
deriving DecidableEq, Repr

/-- What the cohesion gate decides. -/
inductive Decision
  | merge | veto
deriving DecidableEq, Repr

/-- The event types of a wave. -/
inductive EventType
  | jobStarted | jobCompleted | artifactWritten | runStarted | runFinished | vizPulse
  | cohesionMerge | cohesionVeto
  | waveStarted (w : Wave) | waveFinished (w : Wave)
  | agentSpawned | vizCustom
deriving DecidableEq, Repr

/-- `WorkspaceRunStatus`. -/
inductive WorkspaceRunStatus
  | pending | running | succeeded | failed | timeout | denied
deriving DecidableEq, Repr

/-- A row of `city_events`, with what the payload says about agent, decision, the status of a run, and path
and version of an artifact. -/
structure CityEventModel where
  familyId : Option FamilyId
  jobId : Option JobId
  eventType : EventType
  agentId : Option AgentId := none
  decision : Option Decision := none
  status : Option WorkspaceRunStatus := none
  artifact : Option (String × ℕ) := none
deriving DecidableEq, Repr

/-- A row of `workspace_artifacts`. -/
structure WorkspaceArtifactModel where
  jobId : JobId
  familyId : FamilyId
  path : String
  content : Option String
  sizeBytes : ℕ
  version : ℕ
  createdByAgentId : Option AgentId
deriving DecidableEq, Repr

/-- A row of `workspace_runs`. -/
structure WorkspaceRunModel where
  jobId : JobId
  status : WorkspaceRunStatus
  startedByAgentId : Option AgentId
deriving DecidableEq, Repr

/-- The tables of the city with those of its jobs. -/
structure Commons extends Store where
  artifacts : List WorkspaceArtifactModel
  runs : List WorkspaceRunModel
  events : List CityEventModel

namespace Commons

/-- `CityJobRepository.get`. -/
def getJob (db : Commons) (id : JobId) : Option CityJobModel := db.jobs.find? (·.id = id)

/-- An id that no job and no event mentions. -/
def newJobId (db : Commons) : JobId :=
  (db.jobs.map (·.id) ++ db.events.filterMap (·.jobId)).max?.getD 0 + 1

/-- Change the row of a job. -/
def setJob (db : Commons) (id : JobId) (f : CityJobModel → CityJobModel) : Commons :=
  { db with jobs := db.jobs.map fun j => if j.id = id then f j else j }

/-- The artifacts of a job. -/
def artifactsOf (db : Commons) (id : JobId) : List WorkspaceArtifactModel :=
  db.artifacts.filter (·.jobId = id)

/-- The runs of a job. -/
def runsOf (db : Commons) (id : JobId) : List WorkspaceRunModel := db.runs.filter (·.jobId = id)

/-- `ORDER BY path ASC, version DESC`. -/
def listing (a : WorkspaceArtifactModel) : String ×ₗ ℕᵒᵈ := toLex (a.path, OrderDual.toDual a.version)

/-- `WorkspaceArtifactRepository.list_for_job`. -/
def listArtifacts (db : Commons) (id : JobId) (limit : ℕ := 200) : List WorkspaceArtifactModel :=
  (Select.orderBy listing (db.artifactsOf id)).take limit

/-- `WorkspaceArtifactRepository.get_latest_by_path`. -/
def getLatestByPath (db : Commons) (id : JobId) (path : String) : Option WorkspaceArtifactModel :=
  (Select.orderByDesc (·.version) ((db.artifactsOf id).filter (·.path = path))).head?

/-- `WorkspaceArtifactRepository.latest_version`. -/
def latestVersion (db : Commons) (id : JobId) (path : String) : ℕ :=
  ((db.getLatestByPath id path).map (·.version)).getD 0

/-- `WorkspaceRunRepository.list_for_job`: the newest rows first. -/
def listRuns (db : Commons) (id : JobId) (limit : ℕ := 200) : List WorkspaceRunModel :=
  (db.runsOf id).reverse.take limit

end Commons

/-- `emit_event`: flushed, not committed. -/
def emitEvent (s : Session Commons) (e : CityEventModel) : Session Commons :=
  s.write fun db => { db with events := db.events ++ [e] }

/-! ## Jobs -/

/-- `start_job`. -/
def startJob (s : Session Commons) (familyId : FamilyId) (district : CityDistrict) (now : Time) :
    Option (JobId × Session Commons) := do
  let _ ← s.working.getFamily familyId
  let job : CityJobModel :=
    { id := s.working.newJobId, familyId, district, status := .pending, createdAt := now }
  let s := s.write fun db => { db with jobs := db.jobs ++ [job] }
  let s := emitEvent s { familyId, jobId := job.id, eventType := .jobStarted }
  -- this commits whatever the session had written before, too
  return (job.id, s.commit)

/-- The statuses that end a job. -/
def CityJobStatus.final (status : CityJobStatus) : Bool := status = .completed ∨ status = .failed

/-- The row of a job with a new status. -/
def CityJobModel.withStatus (status : CityJobStatus) (now : Time) (job : CityJobModel) : CityJobModel :=
  { job with status, completedAt := if status.final then some now else job.completedAt }

/-- `set_job_status`. -/
def setJobStatus (s : Session Commons) (id : JobId) (status : CityJobStatus) (now : Time) :
    Option (Session Commons) := do
  let job ← s.working.getJob id
  let s := s.write (·.setJob id (·.withStatus status now))
  let s :=
    if status.final then
      emitEvent s { familyId := job.familyId, jobId := job.id, eventType := .jobCompleted }
    else s
  return s.commit

/-! ## Tools -/

/-- The tools a wave calls. -/
inductive ToolCall
  | workspaceWrite
  | runPython
  | emitVizEvent (eventType : EventType)
deriving DecidableEq

/-- How a tool call ends: the answer, whether it wrote its artifact or event, path and content of the
artifact, and the statuses of the runs it recorded. -/
structure ToolOutcome where
  ok : Bool := true
  wrote : Bool := true
  path : String := "note.md"
  content : String := ""
  runs : List WorkspaceRunStatus := [.running, .succeeded]

/-- `record_artifact`. -/
def recordArtifact (s : Session Commons) (job : CityJobModel) (path : String) (content : Option String)
    (agentId : Option AgentId) : Session Commons :=
  let artifact : WorkspaceArtifactModel :=
    { jobId := job.id
      familyId := job.familyId
      path
      content
      sizeBytes := (content.getD "").utf8ByteSize
      version := s.working.latestVersion job.id path + 1
      createdByAgentId := agentId }
  let s := s.write fun db => { db with artifacts := db.artifacts ++ [artifact] }
  (emitEvent s
    { familyId := job.familyId, jobId := job.id, eventType := .artifactWritten, agentId,
      artifact := some (path, artifact.version) }).commit

/-- `record_run`. -/
def recordRun (job : CityJobModel) (agentId : Option AgentId) (s : Session Commons)
    (status : WorkspaceRunStatus) : Session Commons :=
  let run : WorkspaceRunModel := { jobId := job.id, status, startedByAgentId := agentId }
  let s := s.write fun db => { db with runs := db.runs ++ [run] }
  let eventType : EventType := if status = .pending then .runStarted else .runFinished
  (emitEvent s { familyId := job.familyId, jobId := job.id, eventType, agentId, status }).commit

/-- What a tool call writes. -/
def runTool (job : CityJobModel) (agentId : Option AgentId) (s : Session Commons)
    (call : ToolCall × ToolOutcome) : Session Commons :=
  match call.1 with
  | .workspaceWrite => 
      if call.2.wrote then recordArtifact s job call.2.path (some call.2.content) agentId else s
  | .runPython => call.2.runs.foldl (recordRun job agentId) s
  | .emitVizEvent eventType =>
      if call.2.wrote then
        (emitEvent s { familyId := job.familyId, jobId := job.id, eventType, agentId }).commit
      else s

/-- `execute_tool_calls`, with the outcomes of the calls; `none` also where the governor turns them away. -/
def executeToolCalls (s : Session Commons) (id : JobId) (calls : List ToolCall)
    (agentId : Option AgentId) (admits : Bool) (outcome : ℕ → ToolOutcome) :
    Option (List Bool × Session Commons) := do
  let job ← s.working.getJob id
  let s :=
    if job.status = .pending then s.write (·.setJob id fun j => { j with status := .running }) else s
  -- the status was flushed before the governor is asked
  if admits then
    let results := calls.mapIdx fun i call => (call, outcome i)
    -- commits whatever the calls answered: a failing call is reported, not raised
    return (results.map fun r => r.2.ok, (results.foldl (runTool job agentId) s).commit)
  else none

/-! ## The cohesion gate -/

/-- What `cohesion_score` answers. -/
structure CohesionScore where
  score : ℚ
  participation : ℚ
  toolSuccessRate : ℚ
  participants : ℕ
  familySize : ℕ
  artifactCount : ℕ
  runCount : ℕ

/-- `cohesion_score`; `r` is how the results of float operations are rounded. -/
def cohesionScore (r : Rounding) (db : Commons) (id : JobId) : Option CohesionScore := do
  let job ← db.getJob id
  let memberAgents := ((db.membersOf job.familyId).map (·.agentId)).dedup
  let artifacts := db.listArtifacts id 1000
  let runs := db.listRuns id 1000
  let authors := artifacts.filterMap (·.createdByAgentId)
  let runners := runs.filterMap (·.startedByAgentId)
  let participants := memberAgents.filter fun a => a ∈ authors ∨ a ∈ runners
  let participation : ℚ :=
    if memberAgents = [] then 0 else r.div participants.length memberAgents.length
  let successRate : ℚ :=
    if runs = [] then 0 else r.div (runs.countP (·.status = .succeeded)) runs.length
  return {
    score := r.round 4 (r.add (r.mul (r.fl (6/10)) participation) (r.mul (r.fl (4/10)) successRate))
    participation := r.round 4 participation
    toolSuccessRate := r.round 4 successRate
    participants := participants.length
    familySize := memberAgents.length
    artifactCount := artifacts.length
    runCount := runs.length }

/-- `_cohesion_threshold`. -/
def cohesionThreshold (r : Rounding) (policy : Policy) : ℚ :=
  match policy.cohesionMin with
  | some (some raw) => max 0 (min 1 raw)
  | _ => r.fl (35/100)

/-- Everything about a request that neither the database nor the request decides: the clock, the arithmetic of
floats, the order in which members are returned, what the governor admits and how the tool calls of a job end. -/
structure Environment where
  now : Time := 0
  rounding : Rounding := .binary64
  order : List MemberId := []
  admits : JobId → ℕ → Bool := fun _ _ => true
  outcome : JobId → ℕ → ℕ → ToolOutcome := fun _ _ _ => {}
  gateAdmits : JobId → Bool := fun _ => true
  gate : JobId → ToolOutcome := fun _ => {}

/-- `cohesion_decide`. -/
def cohesionDecide (env : Environment) (s : Session Commons) (id : JobId) (action : Decision)
    (force : Bool := false) : Option (Decision × Session Commons) := do
  let job ← s.working.getJob id
  let family ← s.working.getFamily job.familyId
  let score ← cohesionScore env.rounding s.working id
  let threshold := cohesionThreshold env.rounding family.policy
  let parent := (s.working.rowsOf env.order family.id).find? (·.roleInFamily = .parent)
  let parentAgent := parent.map (·.agentId)
  -- the threshold stops a merge only, and only without `force`
  match action with
  | .merge =>
      if !force ∧ score.score < threshold then none
      else do
        let (_, s) ← executeToolCalls s id [.emitVizEvent .cohesionMerge] parentAgent
          (env.gateAdmits id) fun _ => env.gate id
        let s ← setJobStatus s id .completed env.now
        return (.merge, s)
  | .veto => do
      let s := emitEvent s
        { familyId := job.familyId, jobId := id, eventType := .cohesionVeto, agentId := parentAgent }
      let s ← setJobStatus s id .failed env.now
      return (.veto, s)

end Persola.City
