import Persola.City.Waves
import Persola.Lib.Table

/-!
# `City.Durability` — which events of a wave outlive its request

`Commons.Works` says what the calls on one job do to the rows: the log grows by entries of that job with given
landmarks, other jobs stay. Read on the rows a session has written, a wave records for each of its jobs all
four landmarks (`waveFamily_spec`). The last of them is only flushed, and it is the first commit of the next
family that makes it durable, so the last family of every wave loses it (`recorded_iff`).
-/

namespace Persola.City

open Agent (AgentId)

variable {db db' db'' : Commons} {s t : Session Commons} {i j : JobId} {w : Wave} {req : WaveRequest}
  {env : Environment} {now : Time} {family : FamilyModel}

/-! ## Landmarks -/

/-- The events of a wave that the job of a family is to have. -/
inductive Landmark
  | started (w : Wave)
  | gate (d : Decision)
  | completed
  | finished (w : Wave) (d : Option Decision)
deriving DecidableEq

/-- The landmark an event is. -/
def CityEventModel.landmark (e : CityEventModel) : Option Landmark :=
  match e.eventType with
  | .waveStarted w => some (.started w)
  | .cohesionMerge => some (.gate .merge)
  | .cohesionVeto => some (.gate .veto)
  | .jobCompleted => some .completed
  | .waveFinished w => some (.finished w e.decision)
  | _ => none

/-- How the job ends. -/
def Decision.status : Decision → CityJobStatus
  | .merge => .completed
  | .veto => .failed

namespace Commons

/-- The landmarks of a job, in the order of the log. -/
def landmarks (db : Commons) (j : JobId) : List Landmark :=
  Session.landmarks CityEventModel.jobId CityEventModel.landmark j db.events

/-- The status of a job. -/
def jobStatus (db : Commons) (j : JobId) : Option CityJobStatus := (db.getJob j).map (·.status)

/-- **The record of a result is complete**: started, decided, completed, finished with the same decision, each
once and in this order, and the job has the status of the decision. -/
def Recorded (db : Commons) (w : Wave) (r : WaveResult) : Prop :=
  ∃ d, r.decision = some d ∧ db.jobStatus r.jobId = some d.status ∧
    db.landmarks r.jobId = [.started w, .gate d, .completed, .finished w (some d)]

/-- The record of a result lacks its last event. -/
def Unfinished (db : Commons) (w : Wave) (r : WaveResult) : Prop :=
  ∃ d, r.decision = some d ∧ db.jobStatus r.jobId = some d.status ∧
    db.landmarks r.jobId = [.started w, .gate d, .completed]

theorem Unfinished.not_recorded {r : WaveResult} (h : db.Unfinished w r) : ¬ db.Recorded w r := by
  obtain ⟨d, -, -, hlandmarks⟩ := h
  rintro ⟨d', -, -, hlandmarks'⟩
  simp [hlandmarks] at hlandmarks'

/-! ## Work on one job -/

/-- `db'` is `db` after work on the job `j` that left the landmarks `ms`. -/
structure Works (db db' : Commons) (j : JobId) (ms : List Landmark) : Prop where
  log : Session.Grew CityEventModel.jobId CityEventModel.landmark j ms db.events db'.events
  jobs_ne : ∀ i, i ≠ j → db'.getJob i = db.getJob i

theorem Works.refl (db : Commons) (j : JobId) : db.Works db j [] := ⟨.refl _, fun _ _ => rfl⟩

theorem Works.trans {ms ms' : List Landmark} (h : db.Works db' j ms) (h' : db'.Works db'' j ms') :
    db.Works db'' j (ms ++ ms') :=
  ⟨h.log.trans h'.log, fun i hi => (h'.jobs_ne i hi).trans (h.jobs_ne i hi)⟩

/-- Work on another job leaves a complete record complete. -/
theorem Works.recorded {ms : List Landmark} {r : WaveResult} (h : db.Works db' j ms)
    (hj : r.jobId ≠ j) (hr : db.Recorded w r) : db'.Recorded w r := by
  obtain ⟨d, hd, hstatus, hlandmarks⟩ := hr
  refine ⟨d, hd, ?_, (h.log.landmarks_ne hj).trans hlandmarks⟩
  unfold jobStatus
  rw [h.jobs_ne _ hj]
  exact hstatus

theorem newJobId_ne_of_mem {e : CityEventModel} (he : e ∈ db.events) : e.jobId ≠ some db.newJobId := by
  intro hid
  have hmem : db.newJobId ∈ db.jobs.map (·.id) ++ db.events.filterMap (·.jobId) :=
    List.mem_append_right _ (List.mem_filterMap.mpr ⟨e, he, hid⟩)
  have hle : db.newJobId ≤ (db.jobs.map (·.id) ++ db.events.filterMap (·.jobId)).max?.getD 0 :=
    List.le_max?_getD_of_mem hmem
  exact absurd hle (Nat.not_le_of_lt (Nat.lt_succ_self _))

/-- A new job has no landmarks yet. -/
theorem landmarks_newJobId : db.landmarks db.newJobId = [] :=
  Session.landmarks_eq_nil fun _ he => newJobId_ne_of_mem he

/-- A job with a record is not a new one. -/
theorem Recorded.ne_newJobId {r : WaveResult} (h : db.Recorded w r) : r.jobId ≠ db.newJobId := by
  obtain ⟨d, -, -, hlandmarks⟩ := h
  intro hid
  rw [hid, landmarks_newJobId] at hlandmarks
  cases hlandmarks

theorem getJob_setJob {f : CityJobModel → CityJobModel} (hf : ∀ x, (f x).id = x.id) :
    (db.setJob j f).getJob i = (db.getJob i).map fun x => if i = j then f x else x :=
  Table.find?_modify hf

theorem setJob_works {f : CityJobModel → CityJobModel} (hf : ∀ x, (f x).id = x.id) :
    db.Works (db.setJob j f) j [] where
  log := .refl _
  jobs_ne := by
    intro i hi
    rw [getJob_setJob hf]
    simp [hi]

theorem getJob_id {job : CityJobModel} (h : db.getJob i = some job) : job.id = i := Table.key_of_find? h

end Commons

open Commons

theorem emitEvent_works {e : CityEventModel} (he : e.jobId = some j) :
    s.working.Works (emitEvent s e).working j e.landmark.toList :=
  ⟨.entry he, fun _ _ => rfl⟩

/-! ## Tools -/

/-- The landmarks a tool call leaves. -/
def toolLandmarks (call : ToolCall × ToolOutcome) : List Landmark :=
  match call.1 with
  | .emitVizEvent eventType =>
      if call.2.wrote then
        (CityEventModel.landmark { familyId := none, jobId := none, eventType }).toList
      else []
  | _ => []

theorem recordArtifact_works {job : CityJobModel} {path : String} {content : Option String}
    {agentId : Option AgentId} :
    s.working.Works (recordArtifact s job path content agentId).working job.id [] :=
  ⟨.entry rfl, fun _ _ => rfl⟩

theorem recordRun_works {job : CityJobModel} {agentId : Option AgentId} {status : WorkspaceRunStatus} :
    s.working.Works (recordRun job agentId s status).working job.id [] := by
  refine ⟨?_, fun _ _ => rfl⟩
  unfold recordRun
  split
  · exact .entry rfl
  · exact .entry rfl

theorem runTool_works {job : CityJobModel} {agentId : Option AgentId} {call : ToolCall × ToolOutcome} :
    s.working.Works (runTool job agentId s call).working job.id (toolLandmarks call) := by
  obtain ⟨tool, outcome⟩ := call
  cases tool with
  | workspaceWrite =>
      simp only [runTool, toolLandmarks]
      split
      · exact recordArtifact_works
      · exact .refl _ _
  | runPython =>
      simp only [runTool, toolLandmarks]
      induction outcome.runs generalizing s with
      | nil => exact .refl _ _
      | cons status rest ih => exact recordRun_works.trans ih
  | emitVizEvent eventType =>
      simp only [runTool, toolLandmarks]
      split
      · exact emitEvent_works rfl
      · exact .refl _ _

theorem runTools_works {job : CityJobModel} {agentId : Option AgentId}
    {calls : List (ToolCall × ToolOutcome)} :
    s.working.Works (calls.foldl (runTool job agentId) s).working job.id (calls.flatMap toolLandmarks) := by
  induction calls generalizing s with
  | nil => exact .refl _ _
  | cons call rest ih => exact runTool_works.trans ih

/-- **`execute_tool_calls`** leaves the landmarks of its calls. -/
theorem executeToolCalls_works {calls : List ToolCall} {agentId : Option AgentId} {admits : Bool}
    {outcome : ℕ → ToolOutcome} {oks : List Bool}
    (h : executeToolCalls s j calls agentId admits outcome = some (oks, t)) :
    s.working.Works t.working j ((calls.mapIdx fun i call => (call, outcome i)).flatMap toolLandmarks) := by
  obtain ⟨job, hjob, h⟩ := Option.bind_eq_some_iff.mp h
  cases hadmits : admits with
  | false => simp [hadmits] at h
  | true =>
      rw [if_pos hadmits] at h
      obtain ⟨-, rfl⟩ := Prod.mk.inj (Option.some.inj h)
      -- marking the job as running leaves no landmark
      have hrunning : ∀ u : Session Commons, u = (if job.status = .pending then
            s.write (·.setJob j fun x => { x with status := .running }) else s) →
          s.working.Works u.working j [] := by
        rintro u rfl
        split
        · exact setJob_works fun _ => rfl
        · exact .refl _ _
      rw [← getJob_id hjob] at hrunning ⊢
      exact (hrunning _ rfl).trans runTools_works

/-- The calls of a plan that leave no landmark. -/
def Quiet (calls : List ToolCall) : Prop :=
  ∀ call ∈ calls, ∀ outcome, toolLandmarks (call, outcome) = []

theorem quiet_districtToolCalls (district : CityDistrict) : Quiet (districtToolCalls district) := by
  intro call hcall outcome
  cases district <;> simp only [districtToolCalls, List.mem_cons, List.not_mem_nil, or_false] at hcall <;>
    rcases hcall with rfl | rfl <;> simp [toolLandmarks, CityEventModel.landmark]

theorem quiet_note : Quiet [.workspaceWrite] := by
  intro call hcall outcome
  rw [List.mem_singleton.mp hcall]
  rfl

theorem quiet_multiContributorPlan (members : List FamilyMemberModel) (district : CityDistrict) :
    ∀ batch ∈ multiContributorPlan members district, Quiet batch.calls := by
  intro batch hbatch
  rcases List.mem_append.mp hbatch with hsupport | hlead
  · obtain ⟨role, -, hrole⟩ := List.mem_filterMap.mp hsupport
    obtain ⟨member, -, hmember⟩ := Option.bind_eq_some_iff.mp hrole
    split at hmember
    · cases hmember
    · obtain rfl := Option.some.inj hmember
      exact quiet_note
  · obtain ⟨m, -, rfl⟩ := List.mem_map.mp hlead
    exact quiet_districtToolCalls district

theorem quiet_waveBatches (members : List FamilyMemberModel) (district : CityDistrict) :
    ∀ batch ∈ waveBatches w req members district, Quiet batch.calls := by
  unfold waveBatches
  split
  · intro batch hbatch
    rw [List.mem_singleton.mp hbatch]
    exact quiet_districtToolCalls district
  · exact quiet_multiContributorPlan members district

theorem runBatch_works {u v : List Contributor × Session Commons} {batch : Batch × ℕ}
    (h : runBatch env j u batch = some v) (hquiet : Quiet batch.1.calls) :
    u.2.working.Works v.2.working j [] := by
  obtain ⟨⟨oks, t⟩, hexecute, h⟩ := Option.bind_eq_some_iff.mp h
  obtain rfl := Option.some.inj h
  have hworks := executeToolCalls_works hexecute
  have hnone : (batch.1.calls.mapIdx fun i call => (call, env.outcome j batch.2 i)).flatMap
      toolLandmarks = [] := by
    refine List.flatMap_eq_nil_iff.mpr fun call hcall => ?_
    obtain ⟨i, hi, rfl⟩ := List.mem_mapIdx.mp hcall
    exact hquiet _ (List.getElem_mem hi) _
  rw [hnone] at hworks
  exact hworks

/-- The batches of a family leave no landmark. -/
theorem runBatches_works {batches : List (Batch × ℕ)} {u v : List Contributor × Session Commons}
    (h : batches.foldlM (runBatch env j) u = some v) (hquiet : ∀ batch ∈ batches, Quiet batch.1.calls) :
    u.2.working.Works v.2.working j [] := by
  let I (rest : List (Batch × ℕ)) (x : List Contributor × Session Commons) : Prop :=
    u.2.working.Works x.2.working j [] ∧ ∀ batch ∈ rest, Quiet batch.1.calls
  have hstep : ∀ (batch : Batch × ℕ) (rest : List (Batch × ℕ)) (x y : List Contributor × Session Commons),
      I (batch :: rest) x → runBatch env j x batch = some y → I rest y := by
    rintro batch rest x y ⟨hworks, hquiet⟩ hrun
    exact ⟨hworks.trans (runBatch_works hrun (hquiet batch (List.mem_cons_self ..))),
      fun b hb => hquiet b (List.mem_cons_of_mem _ hb)⟩
  exact (Runs.foldlM_invariant hstep (⟨.refl _ _, hquiet⟩ : I batches u) h).1

/-! ## Jobs and the gate -/

/-- **`start_job`** opens a job that nothing mentioned before. -/
theorem startJob_spec {district : CityDistrict}
    (h : startJob s family.id district now = some (j, t)) :
    j = s.working.newJobId ∧ s.working.Works t.working j [] := by
  obtain ⟨_, -, h⟩ := Option.bind_eq_some_iff.mp h
  obtain ⟨rfl, rfl⟩ := Prod.mk.inj (Option.some.inj h)
  refine ⟨rfl, .entry rfl, fun i hi => ?_⟩
  have hne : ¬ s.working.newJobId = i := fun heq => hi heq.symm
  simp [getJob, emitEvent, hne]

/-- **`set_job_status`** with a final status completes the job and leaves nothing uncommitted. -/
theorem setJobStatus_spec {status : CityJobStatus} (h : setJobStatus s j status now = some t)
    (hfinal : status.final = true) :
    s.working.Works t.working j [.completed] ∧ t.working.jobStatus j = some status ∧
      t.committed = t.working := by
  obtain ⟨job, hjob, h⟩ := Option.bind_eq_some_iff.mp h
  obtain rfl := Option.some.inj h
  rw [if_pos hfinal]
  refine ⟨?_, ?_, rfl⟩
  · have hset : s.working.Works (s.working.setJob j (·.withStatus status now)) j [] :=
      setJob_works fun _ => rfl
    exact hset.trans (emitEvent_works (s := s.write (·.setJob j (·.withStatus status now)))
      (congrArg some (getJob_id hjob)))
  · have hstatus : (s.working.setJob j (·.withStatus status now)).jobStatus j = some status := by
      unfold jobStatus
      rw [getJob_setJob (f := (·.withStatus status now)) fun _ => rfl, hjob]
      simp [CityJobModel.withStatus]
    exact hstatus

/-- The gate's own event is emitted. -/
def Environment.GateEmits (env : Environment) : Prop := ∀ j, (env.gate j).wrote = true

/-- **`cohesion_decide`** leaves its decision and the completion of the job, and nothing uncommitted. -/
theorem cohesionDecide_spec {action d : Decision} {force : Bool} (hgate : env.GateEmits)
    (h : cohesionDecide env s j action force = some (d, t)) :
    d = action ∧ s.working.Works t.working j [.gate d, .completed] ∧
      t.working.jobStatus j = some d.status ∧ t.committed = t.working := by
  obtain ⟨job, -, h⟩ := Option.bind_eq_some_iff.mp h
  obtain ⟨family, -, h⟩ := Option.bind_eq_some_iff.mp h
  obtain ⟨score, -, h⟩ := Option.bind_eq_some_iff.mp h
  cases action with
  | merge =>
      dsimp only at h
      split at h
      · cases h
      · obtain ⟨⟨oks, u⟩, hexecute, h⟩ := Option.bind_eq_some_iff.mp h
        obtain ⟨v, hstatus, h⟩ := Option.bind_eq_some_iff.mp h
        obtain ⟨rfl, rfl⟩ := Prod.mk.inj (Option.some.inj h)
        have hworks := executeToolCalls_works hexecute
        have hmarks : (([ToolCall.emitVizEvent .cohesionMerge].mapIdx fun _ call =>
            (call, env.gate j)).flatMap toolLandmarks) = [.gate .merge] := by
          simp [toolLandmarks, hgate j, CityEventModel.landmark]
        rw [hmarks] at hworks
        obtain ⟨hcompleted, hjob, hcommitted⟩ := setJobStatus_spec hstatus rfl
        exact ⟨rfl, hworks.trans hcompleted, hjob, hcommitted⟩
  | veto =>
      obtain ⟨v, hstatus, h⟩ := Option.bind_eq_some_iff.mp h
      obtain ⟨rfl, rfl⟩ := Prod.mk.inj (Option.some.inj h)
      obtain ⟨hcompleted, hjob, hcommitted⟩ := setJobStatus_spec hstatus rfl
      exact ⟨rfl, (emitEvent_works rfl).trans hcompleted, hjob, hcommitted⟩

/-! ## One family of a wave -/

/-- **One family of a wave**: everything about its job is committed, except for its last event. -/
theorem waveFamily_spec {results results' : List WaveResult} (hauto : req.autoMerge = true)
    (hgate : env.GateEmits) (h : waveFamily w req env (results, s) family = some (results', t)) :
    ∃ (r : WaveResult) (d : Decision) (e : CityEventModel),
      results' = results ++ [r] ∧ r.jobId = s.working.newJobId ∧ r.decision = some d ∧
      s.working.Works t.committed r.jobId [.started w, .gate d, .completed] ∧
      t.committed.jobStatus r.jobId = some d.status ∧
      e.jobId = some r.jobId ∧ e.landmark = some (.finished w (some d)) ∧
      t.working = { t.committed with events := t.committed.events ++ [e] } := by
  obtain ⟨⟨j, s₁⟩, hstart, h⟩ := Option.bind_eq_some_iff.mp h
  obtain ⟨⟨contributors, s₂⟩, hbatches, h⟩ := Option.bind_eq_some_iff.mp h
  obtain ⟨cohesion, -, h⟩ := Option.bind_eq_some_iff.mp h
  obtain ⟨⟨decision, s₃⟩, hdecision, h⟩ := Option.bind_eq_some_iff.mp h
  obtain ⟨rfl, rfl⟩ := Prod.mk.inj (Option.some.inj h)
  unfold waveGate at hdecision
  rw [if_pos hauto] at hdecision
  obtain ⟨⟨d, s₄⟩, hdecide, hdecision⟩ := Option.bind_eq_some_iff.mp hdecision
  obtain ⟨rfl, rfl⟩ := Prod.mk.inj (Option.some.inj hdecision)
  obtain ⟨hj, hstarted⟩ := startJob_spec hstart
  have hquiet : ∀ batch ∈ (waveBatches w req (s.working.rowsOf env.order family.id)
      family.defaultDistrict).zipIdx, Quiet batch.1.calls := fun batch hbatch =>
    quiet_waveBatches _ _ batch.1 (List.fst_mem_of_mem_zipIdx hbatch)
  have hworked := runBatches_works hbatches hquiet
  obtain ⟨-, hdecided, hstatus, hcommitted⟩ := cohesionDecide_spec hgate hdecide
  let finished : CityEventModel :=
    { familyId := family.id, jobId := j, eventType := .waveFinished w, decision := some d
      agentId := (pickAgentForDistrict (s.working.rowsOf env.order family.id)
        family.defaultDistrict).map (·.agentId) }
  refine ⟨_, d, finished, rfl, hj, rfl, ?_, ?_, rfl, rfl, ?_⟩
  -- the gate leaves nothing uncommitted, so the committed rows are the ones it has written
  · show s.working.Works s₄.committed j _
    rw [hcommitted]
    exact ((hstarted.trans (emitEvent_works rfl)).trans hworked).trans hdecided
  · show s₄.committed.jobStatus j = _
    rw [hcommitted]
    exact hstatus
  -- the finished event alone is written after that
  · show (emitEvent s₄ finished).working = _
    rw [show (emitEvent s₄ finished).committed = s₄.committed from rfl, hcommitted]
    rfl

/-! ## The wave -/

/-- Half-way through a wave: what the session has written is complete for every result, what it has committed
for all but the last. -/
structure Halfway (w : Wave) (results : List WaveResult) (s : Session Commons) : Prop where
  written : ∀ r ∈ results, s.working.Recorded w r
  committed : ∀ r ∈ results.dropLast, s.committed.Recorded w r
  last : ∀ r ∈ results.getLast?, s.committed.Unfinished w r

theorem Halfway.waveFamily {results results' : List WaveResult} (hauto : req.autoMerge = true)
    (hgate : env.GateEmits) (hs : Halfway w results s)
    (h : City.waveFamily w req env (results, s) family = some (results', t)) :
    Halfway w results' t ∧ results'.length = results.length + 1 := by
  obtain ⟨r, d, e, rfl, hj, hd, hworks, hstatus, he, hmark, hlast⟩ := waveFamily_spec hauto hgate h
  have hnew : t.committed.landmarks r.jobId = [.started w, .gate d, .completed] := by
    refine hworks.log.landmarks_self.trans ?_
    rw [hj, show Session.landmarks CityEventModel.jobId CityEventModel.landmark s.working.newJobId
      s.working.events = [] from landmarks_newJobId, List.nil_append]
  -- the first commit of this family makes the finished events before it durable
  have hold : ∀ r' ∈ results, t.committed.Recorded w r' := fun r' hr' =>
    hworks.recorded (hj ▸ (hs.written r' hr').ne_newJobId) (hs.written r' hr')
  have hemit : t.committed.Works t.working r.jobId [.finished w (some d)] := by
    have hentry : Session.Grew CityEventModel.jobId CityEventModel.landmark r.jobId
        e.landmark.toList t.committed.events (t.committed.events ++ [e]) := .entry he
    rw [hmark] at hentry
    rw [hlast]
    exact ⟨hentry, fun _ _ => rfl⟩
  refine ⟨⟨?_, ?_, ?_⟩, by simp⟩
  · intro r' hr'
    rcases List.mem_append.mp hr' with hmem | hmem
    · exact hemit.recorded (hj ▸ (hs.written r' hmem).ne_newJobId) (hold r' hmem)
    · obtain rfl := List.mem_singleton.mp hmem
      refine ⟨d, hd, ?_, ?_⟩
      · rw [hlast]
        exact hstatus
      · refine hemit.log.landmarks_self.trans ?_
        exact congrArg (· ++ [.finished w (some d)]) hnew
  · rw [List.dropLast_concat]
    exact hold
  · intro r' hr'
    rw [List.getLast?_concat] at hr'
    obtain rfl := Option.some.inj hr'
    exact ⟨d, hd, hstatus, hnew⟩

/-- **A wave** commits the complete record of every result but the last, which lacks its last event. -/
theorem wave_halfway {results : List WaveResult} (hauto : req.autoMerge = true) (hgate : env.GateEmits)
    (h : wave w req env (Session.start db) = some (results, t)) :
    Halfway w results t ∧ results.length = (db.waveFamilies req).length := by
  let I (rest : List FamilyModel) (u : List WaveResult × Session Commons) : Prop :=
    Halfway w u.1 u.2 ∧ u.1.length + rest.length = (db.waveFamilies req).length
  have hstep : ∀ (f : FamilyModel) (rest : List FamilyModel) (u v : List WaveResult × Session Commons),
      I (f :: rest) u → waveFamily w req env u f = some v → I rest v := by
    rintro f rest ⟨results, s⟩ ⟨results', t⟩ ⟨hhalf, hlength⟩ hfamily
    have hstart : Halfway w results s := hhalf
    have htotal : results.length + (rest.length + 1) = (db.waveFamilies req).length := hlength
    obtain ⟨hhalf', hlength'⟩ := hstart.waveFamily hauto hgate hfamily
    refine ⟨hhalf', ?_⟩
    show results'.length + rest.length = _
    omega
  have hend : I [] (results, t) := Runs.foldlM_invariant hstep
    (⟨⟨by simp, by simp, by simp⟩, by simp⟩ : I (db.waveFamilies req) ([], Session.start db)) h
  exact ⟨hend.1, hend.2⟩

theorem respond_eq (call : WaveCall) (env : Environment) (db : Commons) : call.respond env db =
    (wave call.wave call.request env (Session.start db)).map fun t => (t.1, t.2.close) := by
  cases call <;> rfl

/-- **What a wave leaves behind**: its results are all recorded exactly if it had no family to work with; the
record of every result but the last is complete, and the last lacks its finishing event. -/
theorem recorded_iff {call : WaveCall} {results : List WaveResult} {after : Commons}
    (hauto : call.request.autoMerge = true) (hgate : env.GateEmits)
    (h : call.respond env db = some (results, after)) :
    ((∀ r ∈ results, after.Recorded call.wave r) ↔ db.waveFamilies call.request = []) ∧
      (∀ r ∈ results.dropLast, after.Recorded call.wave r) ∧
      ∀ r ∈ results.getLast?, after.Unfinished call.wave r := by
  rw [respond_eq] at h
  obtain ⟨⟨results, t⟩, hwave, heq⟩ := Option.map_eq_some_iff.mp h
  obtain ⟨rfl, rfl⟩ := Prod.mk.inj heq
  obtain ⟨hhalf, hlength⟩ := wave_halfway hauto hgate hwave
  refine ⟨⟨fun hall => ?_, fun hnone => ?_⟩, hhalf.committed, hhalf.last⟩
  · cases hresults : results.getLast? with
    | none =>
        rw [List.getLast?_eq_none_iff.mp hresults] at hlength
        exact List.length_eq_zero_iff.mp hlength.symm
    | some r =>
        -- a wave with results has a last one, and that one lacks its event
        exact absurd (hall r (List.mem_of_getLast? hresults)) (hhalf.last r hresults).not_recorded
  · rw [hnone] at hlength
    rw [List.length_eq_zero_iff.mp hlength]
    intro r hr
    cases hr

/-- The founder of a family. -/
def elder (id : MemberId) (familyId : FamilyId) : FamilyMemberModel :=
  { id, familyId, agentId := id, parentMemberId := none, roleInFamily := .parent, roleLabel := none
    knobOverrides := [], toolTags := [], generation := 0, maxAgeTicks := 6, goals := [], dreams := []
    structuredThinking := 0, growth := 0 }

/-- A city of two families, each with a living parent. -/
def twoFamilies : Commons where
  families :=
    [{ id := 0, name := "Moss", description := none, defaultDistrict := .viz, policy := {}, updatedAt := 1 },
     { id := 1, name := "Fern", description := none, defaultDistrict := .build, policy := {},
       updatedAt := 2 }]
  members := [elder 2 0, elder 3 1]
  agents := []
  personas := []
  jobs := []
  fresh := 4
  artifacts := []
  runs := []
  events := []

/-- A pulse over both families. -/
theorem recorded_twoFamilies : ∃ results after,
    (WaveCall.pulse {}).respond {} twoFamilies = some (results, after) ∧ results.length = 2 ∧
      ((∀ r ∈ results, after.Recorded .pulse r) ↔
        twoFamilies.waveFamilies (WaveCall.pulse {}).request = []) ∧
      (∀ r ∈ results.dropLast, after.Recorded .pulse r) ∧
      ∀ r ∈ results.getLast?, after.Unfinished .pulse r := by
  have hex : ((WaveCall.pulse {}).respond {} twoFamilies).any (fun t => t.1.length = 2) = true := by
    decide +kernel
  obtain ⟨⟨results, after⟩, hrespond, hlength⟩ := (Option.any_eq_true _ _).mp hex
  have hwave := recorded_iff (by rfl) (fun _ => rfl) hrespond
  exact ⟨results, after, hrespond, of_decide_eq_true hlength, hwave⟩

/-- **The finishing event of the last family is lost** when the session of the request is closed. -/
theorem wave_loses_finished : ¬ ∀ (call : WaveCall) (env : Environment) (db : Commons)
    (results : List WaveResult) (after : Commons), call.request.autoMerge = true → env.GateEmits →
    call.respond env db = some (results, after) → ∀ r ∈ results, after.Recorded call.wave r := by
  intro hclaim
  have hex : ((WaveCall.pulse {}).respond {} twoFamilies).any (fun t => t.1.any fun r =>
      t.2.landmarks r.jobId = [.started .pulse, .gate .merge, .completed]) = true := by
    decide +kernel
  obtain ⟨⟨results, after⟩, hrespond, hlost⟩ := (Option.any_eq_true _ _).mp hex
  obtain ⟨r, hr, hlandmarks⟩ := List.any_eq_true.mp hlost
  obtain ⟨d, -, -, hrecorded⟩ := hclaim (.pulse {}) {} twoFamilies results after rfl (fun _ => rfl)
    hrespond r hr
  rw [of_decide_eq_true hlandmarks] at hrecorded
  cases hrecorded

end Persola.City
