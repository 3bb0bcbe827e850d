import Persola.City.Commons

/-!
# `City.Waves` — `city_pulse` and `conduct_city`

A wave goes through the selected families: each gets a job, its living members work on it, and the cohesion
gate merges or vetoes the result. Both waves are one definition with a parameter; the requests that start
them, and the endpoint whose session is closed without a commit, are those of the source. The conductor runs
without an LLM.
-/

namespace Persola.City

open Agent (AgentId)

/-! ## Who works -/

/-- `DISTRICT_ROLE_PREFERENCE`. -/
def districtRolePreference : CityDistrict → List String
  | .build => ["executor", "builder", "coordinator"]
  | .viz => ["creative", "empath", "builder"]
  | .research => ["analyst", "coordinator", "creative"]
  | .ops => ["executor", "coordinator", "builder"]

/-- `SUPPORT_ROLES`. -/
def supportRoles : List String := ["analyst", "creative", "empath", "builder"]

/-- The member a dictionary by role label holds: the last with that label. -/
def byRole (pool : List FamilyMemberModel) (role : String) : Option FamilyMemberModel :=
  pool.reverse.find? (·.roleLabel = some role)

/-- `pick_agent_for_district`. -/
def pickAgentForDistrict (members : List FamilyMemberModel) (district : CityDistrict) :
    Option FamilyMemberModel :=
  let pool := members.filter (·.living)
  (districtRolePreference district).findSome? (byRole pool) <|>
    pool.find? (·.roleInFamily = .child) <|> pool.head?

/-- `district_tool_calls`. -/
def districtToolCalls : CityDistrict → List ToolCall
  | .viz => [.workspaceWrite, .emitVizEvent .vizPulse]
  | .research => [.workspaceWrite, .emitVizEvent .vizPulse]
  | .ops => [.workspaceWrite, .runPython]
  | .build => [.workspaceWrite, .runPython]

/-- A batch of a plan. -/
structure Batch where
  agentId : Option AgentId
  roleLabel : Option String
  calls : List ToolCall

/-- `multi_contributor_plan`. -/
def multiContributorPlan (members : List FamilyMemberModel) (district : CityDistrict) : List Batch :=
  let pool := members.filter (·.living)
  let lead := pickAgentForDistrict pool district
  let support := supportRoles.filterMap fun role => do
    let member ← byRole pool role
    -- the lead does not support itself
    if lead.map (·.agentId) = some member.agentId then none
    else some ⟨some member.agentId, some role, [.workspaceWrite]⟩
  support ++ (lead <|> pool.head?).toList.map fun m =>
    ⟨some m.agentId, m.roleLabel, districtToolCalls district⟩

/-! ## One family of a wave -/

/-- What a wave is asked to do. -/
structure WaveRequest where
  maxFamilies : Option ℤ := none
  districts : Option (List String) := none
  autoMerge : Bool := true
  multiContributor : Bool := true

/-- An entry of `contributors`. -/
structure Contributor where
  agentId : Option AgentId
  roleLabel : Option String
  ok : Bool

/-- An entry of `results`. -/
structure WaveResult where
  familyId : FamilyId
  familyName : String
  district : CityDistrict
  jobId : JobId
  agentId : Option AgentId
  contributors : List Contributor
  cohesion : CohesionScore
  decision : Option Decision
  ok : Bool

/-- One batch of a plan is executed. -/
def runBatch (env : Environment) (jobId : JobId) (t : List Contributor × Session Commons)
    (batch : Batch × ℕ) : Option (List Contributor × Session Commons) := do
  let (oks, s) ← executeToolCalls t.2 jobId batch.1.calls batch.1.agentId (env.admits jobId batch.2)
    (env.outcome jobId batch.2)
  return (t.1 ++ [⟨batch.1.agentId, batch.1.roleLabel, oks.all id⟩], s)

/-- The batches of a family: the plan, or the lead alone. -/
def waveBatches (w : Wave) (req : WaveRequest) (members : List FamilyMemberModel)
    (district : CityDistrict) : List Batch :=
  match w, req.multiContributor with
  | .pulse, false =>
      let lead := pickAgentForDistrict members district
      [⟨lead.map (·.agentId), lead.bind (·.roleLabel), districtToolCalls district⟩]
  | _, _ => multiContributorPlan members district

/-- How the job of a family ends: at the cohesion gate, or without it. -/
def waveGate (w : Wave) (req : WaveRequest) (env : Environment) (s : Session Commons) (id : JobId)
    (score threshold : ℚ) : Option (Option Decision × Session Commons) :=
  if req.autoMerge then do
    let (decision, s) ← cohesionDecide env s id (if threshold ≤ score then .merge else .veto)
    return (some decision, s)
  else
    match w with
    | .pulse => do
        let s ← setJobStatus s id .completed env.now
        return (none, s)
    | .conduct => some (none, s)

/-- The body of the loop over the families. -/
def waveFamily (w : Wave) (req : WaveRequest) (env : Environment)
    (t : List WaveResult × Session Commons) (family : FamilyModel) :
    Option (List WaveResult × Session Commons) := do
  let members := t.2.working.rowsOf env.order family.id
  let district := family.defaultDistrict
  let agentId := (pickAgentForDistrict members district).map (·.agentId)
  let (id, s) ← startJob t.2 family.id district env.now
  -- flushed after the commit of the job: only a later commit keeps it
  let s := emitEvent s { familyId := family.id, jobId := id, eventType := .waveStarted w, agentId }
  let (contributors, s) ← (waveBatches w req members district).zipIdx.foldlM (runBatch env id) ([], s)
  let cohesion ← cohesionScore env.rounding s.working id
  let (decision, s) ← waveGate w req env s id cohesion.score (cohesionThreshold env.rounding family.policy)
  let s := emitEvent s
    -- flushed after the last commit for this family
    { familyId := family.id, jobId := id, eventType := .waveFinished w, agentId, decision }
  let result : WaveResult :=
    { familyId := family.id, familyName := family.name, district, jobId := id, agentId, contributors,
      cohesion, decision, ok := contributors.all (·.ok) }
  return (t.1 ++ [result], s)

/-! ## The waves -/

/-- The families of a wave: the most recent ones, of the districts asked for. -/
def Commons.waveFamilies (db : Commons) (req : WaveRequest) : List FamilyModel :=
  let summaries :=
    match req.maxFamilies with
    | none => db.listRecent
    | some n => db.listRecent.take (max 1 n).toNat
  match req.districts with
  | none | some [] => summaries
  | some districts => summaries.filter fun f => f.defaultDistrict.name ∈ districts.map lower

/-- The loop over the families. -/
def wave (w : Wave) (req : WaveRequest) (env : Environment) (s : Session Commons) :
    Option (List WaveResult × Session Commons) :=
  (s.working.waveFamilies req).foldlM (waveFamily w req env) ([], s)

/-- The body of a request to the pulse endpoint. -/
structure CityPulseRequest where
  maxFamilies : Option ℤ := none
  districts : Option (List String) := none
  autoMerge : Bool := true
  multiContributor : Bool := true

/-- `city_pulse`. -/
def cityPulse (req : CityPulseRequest) : Environment → Session Commons →
    Option (List WaveResult × Session Commons) :=
  wave .pulse ⟨req.maxFamilies, req.districts, req.autoMerge, req.multiContributor⟩

/-- The body of a request to the conduct endpoint. -/
structure ConductCityRequest where
  maxFamilies : ℤ := 4
  districts : Option (List String) := none
  autoMerge : Bool := true

/-- `conduct_city`. -/
def conductCity (req : ConductCityRequest) : Environment → Session Commons →
    Option (List WaveResult × Session Commons) :=
  wave .conduct ⟨some req.maxFamilies, req.districts, req.autoMerge, true⟩

/-- A request to one of the two endpoints. -/
inductive WaveCall
  | pulse (req : CityPulseRequest)
  | conduct (req : ConductCityRequest)

namespace WaveCall

/-- The wave a request starts. -/
def wave : WaveCall → Wave
  | pulse _ => .pulse
  | conduct _ => .conduct

/-- What the wave is asked to do. -/
def request : WaveCall → WaveRequest
  | pulse req => ⟨req.maxFamilies, req.districts, req.autoMerge, req.multiContributor⟩
  | conduct req => ⟨some req.maxFamilies, req.districts, req.autoMerge, true⟩

/-- The endpoint with the session of `get_db`: what the request returns, and the rows left when its session is
closed. -/
def respond (call : WaveCall) (env : Environment) (db : Commons) : Option (List WaveResult × Commons) :=
  let run :=
    match call with
    | pulse req => cityPulse req env (Session.start db)
    | conduct req => conductCity req env (Session.start db)
  run.map fun t => (t.1, t.2.close)

end WaveCall

end Persola.City
