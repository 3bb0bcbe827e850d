import Persola.City.Durability
import Persola.Lib.Numbers

/-!
# `City.Gate` — what the cohesion gate refuses and what it records

`cohesion_decide` with the texts of a request, the policy as it is stored and the columns that `City.Commons` leaves
out. Everything it can refuse a request for is looked at before anything is written, so a refusal leaves the session
as it was; what is written ends with a commit.
-/

namespace Persola.City

open Commons (getJob_setJob getJob_id)

/-- What the gate records of its decision. -/
structure GateResult where
  cohesion : CohesionScore
  decision : Decision
  threshold : ℚ

/-- The columns `result_summary` and `result` of a job; `none` for a result that is not of the gate. -/
structure JobResult where
  resultSummary : Option String := none
  result : Option GateResult := none

/-- The tables with the policies of the families and the results of the jobs. -/
structure Ledger extends Commons where
  policies : FamilyId → Json Number
  results : JobId → JobResult

/-- What the gate raises. -/
inductive GateError
  | action
  | jobNotFound
  | familyNotFound
  | below (score threshold : ℚ)
  | raised (e : PyError)

/-- The text of a request for a decision; no character outside ASCII lower-cases into a letter of the two. -/
def actionText (action : Option String) : String := Py.strip (lower (Py.orElse action ""))

/-- The decision of this text. -/
def Decision.ofText? : String → Option Decision
  | "merge" => some .merge
  | "veto" => some .veto
  | _ => none

/-- The event type of a decision. -/
def Decision.eventType : Decision → EventType
  | .merge => .cohesionMerge
  | .veto => .cohesionVeto

namespace Ledger

/-- `_cohesion_threshold`; `ofText` is how `float` reads a text. -/
def cohesionThreshold (r : Rounding) (ofText : String → Option FloatValue) (policy : Json Number) :
    Except PyError ℚ :=
  match ((policy.get? "cohesion_min").getD (.number (.float (.finite (r.fl (35/100)))))).toFloat ofText with
  | .ok x => .ok x.clamp
  | .error .typeError | .error .valueError => .ok (r.fl (35/100))
  | .error e => .error e

/-- `emit_event`: flushed, not committed. -/
def emitEvent (s : Session Ledger) (e : CityEventModel) : Session Ledger :=
  s.write fun db => { db with events := db.events ++ [e] }

/-- `set_job_status`. -/
def setJobStatus (s : Session Ledger) (id : JobId) (status : CityJobStatus) (resultSummary : Option String)
    (result : Option GateResult) (now : Time) : Except GateError Unit × Session Ledger :=
  match s.working.getJob id with
  | none => (.error .jobNotFound, s)
  | some job =>
      let s := s.write fun db => { db with
        toCommons := db.setJob id (·.withStatus status now)
        results := fun i =>
          if i = id then ⟨resultSummary.or (db.results i).resultSummary, result.or (db.results i).result⟩
          else db.results i }
      let s :=
        if status.final then
          emitEvent s { familyId := job.familyId, jobId := job.id, eventType := .jobCompleted }
        else s
      (.ok (), s.commit)

/-- `emit_viz_event` for an event type it allows; a call that does not work is reported by its caller. -/
def emitVizEvent (id : JobId) (agentId : Option Agent.AgentId) (works : Bool) (s : Session Ledger)
    (eventType : EventType) : Session Ledger :=
  match s.working.getJob id with
  | none => s
  | some job =>
      if works then (emitEvent s { familyId := job.familyId, jobId := job.id, eventType, agentId }).commit else s

/-- A pending job is set to running, which is flushed. -/
def markRunning (s : Session Ledger) (id : JobId) (job : CityJobModel) : Session Ledger :=
  if job.status = .pending then
    s.write fun db => { db with toCommons := db.setJob id fun j => { j with status := .running } }
  else s

/-- `execute_tool_calls`, for calls of `emit_viz_event`. The governor is waited for. -/
def executeToolCalls (s : Session Ledger) (id : JobId) (calls : List EventType) (agentId : Option Agent.AgentId)
    (works : Bool) : Except GateError Unit × Session Ledger :=
  match s.working.getJob id with
  | none => (.error .jobNotFound, s)
  | some job => (.ok (), (calls.foldl (emitVizEvent id agentId works) (markRunning s id job)).commit)

/-- What `get_job` returns. -/
structure JobDetail where
  job : CityJobModel
  result : JobResult
  artifactCount : ℕ
  runCount : ℕ
  eventCount : ℕ

/-- `get_job`. -/
def getJobDetail (db : Ledger) (id : JobId) : Option JobDetail :=
  (db.getJob id).map fun job =>
    { job
      result := db.results id
      artifactCount := (db.listArtifacts id 1000).length
      runCount := (db.listRuns id 1000).length
      eventCount := ((db.events.filter (·.jobId = some id)).take 1000).length }

/-- What the gate answers. -/
structure GateAnswer where
  decision : Decision
  cohesion : CohesionScore
  threshold : ℚ
  job : Option JobDetail

/-- What the gate looks at before it writes. -/
structure Hearing where
  decision : Decision
  job : CityJobModel
  score : CohesionScore
  threshold : ℚ
  parentAgent : Option Agent.AgentId

/-- The first half of `cohesion_decide`, which only reads. -/
def hear (ofText : String → Option FloatValue) (env : Environment) (db : Ledger) (id : JobId)
    (action : Option String) (force : Bool) : Except GateError Hearing :=
  match Decision.ofText? (actionText action) with
  | none => .error .action
  | some decision =>
      match db.getJob id with
      | none => .error .jobNotFound
      | some job =>
          match db.getFamily job.familyId with
          | none => .error .familyNotFound
          | some family =>
              match cohesionScore env.rounding db.toCommons id with
              | none => .error .jobNotFound
              | some score =>
                  match cohesionThreshold env.rounding ofText (db.policies family.id) with
                  | .error e => .error (.raised e)
                  | .ok threshold =>
                      -- the threshold stops a merge only, and only without `force`
                      if decision = .merge ∧ force = false ∧ score.score < threshold then
                        .error (.below score.score threshold)
                      else
                        .ok {
                          decision, job, score, threshold
                          parentAgent := ((db.rowsOf env.order family.id).find?
                            (·.roleInFamily = .parent)).map (·.agentId) }

/-- The second half, for what was heard. -/
def settle (env : Environment) (s : Session Ledger) (id : JobId) (reason : Option String) (h : Hearing) :
    Except GateError Unit × Session Ledger :=
  match h.decision with
  | .merge =>
      match executeToolCalls s id [.cohesionMerge] h.parentAgent (env.gate id).wrote with
      | (.error e, s) => (.error e, s)
      | (.ok _, s) => setJobStatus s id .completed (Py.orElse reason "cohesion merge approved")
          (some ⟨h.score, .merge, h.threshold⟩) env.now
  | .veto =>
      let s := emitEvent s
        { familyId := h.job.familyId, jobId := id, eventType := .cohesionVeto, agentId := h.parentAgent }
      setJobStatus s id .failed (Py.orElse reason "cohesion veto") (some ⟨h.score, .veto, h.threshold⟩) env.now

/-- `cohesion_decide`. -/
def cohesionDecide (ofText : String → Option FloatValue) (env : Environment) (s : Session Ledger) (id : JobId)
    (action reason : Option String) (force : Bool) : Except GateError GateAnswer × Session Ledger :=
  match hear ofText env s.working id action force with
  | .error e => (.error e, s)
  | .ok h =>
      match settle env s id reason h with
      | (.error e, s) => (.error e, s)
      | (.ok _, s) => (.ok ⟨h.decision, h.score, h.threshold, s.working.getJobDetail id⟩, s)

/-! ## What is promised -/

/-- The threshold of a policy: its `cohesion_min` as `float` reads it, clamped; the float 0.35 where there is none,
or where `float` refuses its type or its text. -/
def IsThreshold (r : Rounding) (ofText : String → Option FloatValue) (policy : Json Number) (t : ℚ) : Prop :=
  match policy.get? "cohesion_min" with
  | none => t = r.fl (35/100)
  | some raw =>
      if raw.refused ofText then t = r.fl (35/100) else ∃ x, raw.toFloat ofText = .ok x ∧ t = x.clamp

/-- What the gate is to refuse. -/
inductive Rejected (r : Rounding) (ofText : String → Option FloatValue) (db : Ledger) (id : JobId)
    (action : Option String) (force : Bool) : Prop
  | action (h : actionText action ≠ "merge" ∧ actionText action ≠ "veto")
  | noJob (h : db.getJob id = none)
  | noFamily {job : CityJobModel} (hjob : db.getJob id = some job) (h : db.getFamily job.familyId = none)
  | below {job : CityJobModel} {family : FamilyModel} {score : CohesionScore} {t : ℚ}
      (hjob : db.getJob id = some job) (hfamily : db.getFamily job.familyId = some family)
      (hscore : cohesionScore r db.toCommons id = some score) (ht : IsThreshold r ofText (db.policies family.id) t)
      (hmerge : actionText action = "merge") (hforce : force = false) (hlt : score.score < t)

/-- The row of a job whose end the gate decides, and what is recorded of it. -/
structure Decided (ofText : String → Option FloatValue) (env : Environment) (db db' : Ledger) (id : JobId)
    (action : Option String) (a : GateAnswer) : Prop where
  decision : Decision.ofText? (actionText action) = some a.decision
  score : cohesionScore env.rounding db.toCommons id = some a.cohesion
  threshold : ∃ job family, db.getJob id = some job ∧ db.getFamily job.familyId = some family ∧
    IsThreshold env.rounding ofText (db.policies family.id) a.threshold
  events : ∃ gate completed : CityEventModel, db'.events = db.events ++ [gate, completed] ∧
    gate.jobId = some id ∧ gate.eventType = a.decision.eventType ∧
    completed.jobId = some id ∧ completed.eventType = .jobCompleted
  job : ∃ job, db'.getJob id = some job ∧ job.status = a.decision.status ∧ job.completedAt = some env.now
  result : (db'.results id).result = some ⟨a.cohesion, a.decision, a.threshold⟩

section
variable {r : Rounding} {ofText : String → Option FloatValue} {env : Environment} {s : Session Ledger} {db : Ledger}
  {id : JobId}
  {action reason : Option String} {force : Bool} {policy : Json Number} {t : ℚ}

theorem ofText?_eq_none {text : String} : Decision.ofText? text = none ↔ text ≠ "merge" ∧ text ≠ "veto" := by
  unfold Decision.ofText?
  split <;> simp_all

theorem ofText?_eq_merge {text : String} : Decision.ofText? text = some .merge ↔ text = "merge" := by
  unfold Decision.ofText?
  split <;> simp_all

/-- The default is its own clamp. -/
theorem clamp_default (r : Rounding) : (FloatValue.finite (r.fl (35/100))).clamp = r.fl (35/100) := by
  show max 0 (min 1 (r.fl (35/100))) = _
  rw [min_eq_right (r.fl_le_one (by norm_num)), max_eq_right (r.fl_nonneg (by norm_num))]

/-- The threshold is read as promised, unless the policy has an integer that is too large for a float. -/
theorem cohesionThreshold_eq (r : Rounding) (ofText : String → Option FloatValue)
    (h : ∀ raw, policy.get? "cohesion_min" = some raw → raw.overflows = false) :
    ∃ t, cohesionThreshold r ofText policy = .ok t ∧ ∀ u, IsThreshold r ofText policy u ↔ u = t := by
  unfold cohesionThreshold IsThreshold
  cases hraw : policy.get? "cohesion_min" with
  | none =>
      refine ⟨r.fl (35/100), ?_, fun u => by simp⟩
      rw [Option.getD_none, Json.toFloat]
      exact congrArg Except.ok (clamp_default r)
  | some raw =>
      rw [Option.getD_some]
      cases hrefused : raw.refused ofText with
      | true =>
          refine ⟨r.fl (35/100), ?_, fun u => by simp [hrefused]⟩
          rcases Json.toFloat_refused hrefused with he | he
          · rw [he]
          · rw [he]
      | false =>
          obtain ⟨x, hx⟩ := Json.toFloat_read hrefused (h raw hraw)
          exact ⟨x.clamp, by rw [hx], fun u => by simp [hrefused, hx]⟩

/-! ## What is heard -/

/-- What was heard is what is there. -/
structure Heard (r : Rounding) (ofText : String → Option FloatValue) (db : Ledger) (id : JobId)
    (action : Option String) (h : Hearing) : Prop where
  decision : Decision.ofText? (actionText action) = some h.decision
  job : db.getJob id = some h.job
  score : cohesionScore r db.toCommons id = some h.score
  threshold : ∃ family, db.getFamily h.job.familyId = some family ∧
    IsThreshold r ofText (db.policies family.id) h.threshold

/-- The policy of the family of a job has no integer that is too large for a float in place of the threshold. -/
def FloatPolicy (db : Ledger) (id : JobId) : Prop :=
  ∀ job family raw, db.getJob id = some job → db.getFamily job.familyId = some family →
    (db.policies family.id).get? "cohesion_min" = some raw → raw.overflows = false

theorem exists_cohesionScore (r : Rounding) {db : Commons} {job : CityJobModel} (hjob : db.getJob id = some job) :
    ∃ score, cohesionScore r db id = some score := by
  unfold cohesionScore
  rw [hjob]
  exact ⟨_, rfl⟩

/-- **The gate hears what it is not to refuse**, and nothing else. -/
theorem hear_spec (ofText : String → Option FloatValue) (env : Environment) (action : Option String) (force : Bool)
    (hpolicy : FloatPolicy db id) :
    ((∃ e, hear ofText env db id action force = .error e) ∧ Rejected env.rounding ofText db id action force) ∨
      ∃ h, hear ofText env db id action force = .ok h ∧ ¬ Rejected env.rounding ofText db id action force ∧
        Heard env.rounding ofText db id action h := by
  unfold hear
  cases haction : Decision.ofText? (actionText action) with
  | none => exact .inl ⟨⟨_, rfl⟩, .action (ofText?_eq_none.mp haction)⟩
  | some decision =>
  have hneither : ¬ (actionText action ≠ "merge" ∧ actionText action ≠ "veto") := by
    rw [← ofText?_eq_none, haction]
    exact Option.some_ne_none decision
  cases hjob : db.getJob id with
  | none => exact .inl ⟨⟨_, rfl⟩, .noJob hjob⟩
  | some job =>
  cases hfamily : db.getFamily job.familyId with
  | none => exact .inl ⟨⟨.familyNotFound, by simp only [hfamily]⟩, .noFamily hjob hfamily⟩
  | some family =>
  obtain ⟨score, hscore⟩ := exists_cohesionScore env.rounding hjob
  obtain ⟨t, ht, hunique⟩ := cohesionThreshold_eq env.rounding ofText fun raw => hpolicy job family raw hjob hfamily
  simp only [hfamily, hscore, ht]
  split
  · next hbelow =>
      obtain ⟨rfl, hforce, hlt⟩ := hbelow
      exact .inl ⟨⟨_, rfl⟩, .below hjob hfamily hscore ((hunique t).mpr rfl) (ofText?_eq_merge.mp haction) hforce hlt⟩
  · next habove =>
      refine .inr ⟨_, rfl, fun hrejected => ?_, haction, hjob, hscore, family, hfamily, (hunique t).mpr rfl⟩
      cases hrejected with
      | action h => exact hneither h
      | noJob h =>
          rw [hjob] at h
          cases h
      | noFamily hjob' h =>
          obtain rfl := Option.some.inj (hjob.symm.trans hjob')
          rw [hfamily] at h
          cases h
      | below hjob' hfamily' hscore' ht' hmerge hforce hlt =>
          obtain rfl := Option.some.inj (hjob.symm.trans hjob')
          obtain rfl := Option.some.inj (hfamily.symm.trans hfamily')
          obtain rfl := Option.some.inj (hscore.symm.trans hscore')
          obtain rfl := (hunique _).mp ht'
          rw [ofText?_eq_merge.mpr hmerge] at haction
          exact habove ⟨(Option.some.inj haction).symm, hforce, hlt⟩

/-! ## What is settled -/

/-- **`set_job_status`** with a final status: the status, the stamp and the result of the row, one event, and a
commit. -/
theorem setJobStatus_final {job : CityJobModel} (hjob : s.working.getJob id = some job) (status : CityJobStatus)
    (hfinal : status.final = true) (summary : String) (result : GateResult) (now : Time) :
    ∃ s', setJobStatus s id status (some summary) (some result) now = (.ok (), s') ∧ s'.committed = s'.working ∧
      s'.working.events = s.working.events ++
        [{ familyId := job.familyId, jobId := id, eventType := .jobCompleted }] ∧
      s'.working.getJob id = some (job.withStatus status now) ∧
      s'.working.results id = ⟨some summary, some result⟩ := by
  unfold setJobStatus
  rw [hjob]
  refine ⟨_, rfl, rfl, ?_, ?_, ?_⟩
  · rw [if_pos hfinal, ← getJob_id hjob]
    rfl
  · rw [if_pos hfinal]
    show (s.working.setJob id (·.withStatus status now)).getJob id = _
    rw [getJob_setJob (f := (·.withStatus status now)) fun _ => rfl, hjob]
    simp
  · rw [if_pos hfinal]
    simp [emitEvent]

theorem markRunning_spec {job : CityJobModel} (hjob : s.working.getJob id = some job) :
    (markRunning s id job).working.events = s.working.events ∧
      ∃ job', (markRunning s id job).working.getJob id = some job' ∧ job'.familyId = job.familyId := by
  unfold markRunning
  split
  · refine ⟨rfl, { job with status := .running }, ?_, rfl⟩
    show (s.working.setJob id fun j => { j with status := .running }).getJob id = _
    rw [getJob_setJob (f := fun j => { j with status := .running }) fun _ => rfl, hjob]
    simp
  · exact ⟨rfl, job, hjob, rfl⟩

/-- **`execute_tool_calls`** with one event that is emitted: that event, and the job is still there. -/
theorem executeToolCalls_emit {job : CityJobModel} (hjob : s.working.getJob id = some job) (eventType : EventType)
    (agentId : Option Agent.AgentId) :
    ∃ s' job', executeToolCalls s id [eventType] agentId true = (.ok (), s') ∧
      s'.working.events = s.working.events ++ [{ familyId := job.familyId, jobId := id, eventType, agentId }] ∧
      s'.working.getJob id = some job' := by
  obtain ⟨hevents, job', hjob', hfamily⟩ := markRunning_spec hjob
  refine ⟨(emitVizEvent id agentId true (markRunning s id job) eventType).commit, job', ?_, ?_, ?_⟩
  · unfold executeToolCalls
    rw [hjob]
    rfl
  · unfold emitVizEvent
    rw [hjob']
    show (markRunning s id job).working.events ++ [_] = _
    rw [hevents, hfamily, getJob_id hjob']
  · unfold emitVizEvent
    rw [hjob']
    exact hjob'

/-- **What is settled is recorded**, and committed. -/
theorem settle_spec (reason : Option String) {h : Hearing} (hjob : s.working.getJob id = some h.job)
    (hgate : h.decision = .merge → (env.gate id).wrote = true) :
    ∃ s', settle env s id reason h = (.ok (), s') ∧ s'.committed = s'.working ∧
      (∃ gate completed : CityEventModel, s'.working.events = s.working.events ++ [gate, completed] ∧
        gate.jobId = some id ∧ gate.eventType = h.decision.eventType ∧
        completed.jobId = some id ∧ completed.eventType = .jobCompleted) ∧
      (∃ job, s'.working.getJob id = some job ∧ job.status = h.decision.status ∧ job.completedAt = some env.now) ∧
      (s'.working.results id).result = some ⟨h.score, h.decision, h.threshold⟩ := by
  unfold settle
  cases hdecision : h.decision with
  | merge =>
      obtain ⟨s₁, job, hexecute, hevents₁, hjob₁⟩ := executeToolCalls_emit hjob .cohesionMerge h.parentAgent
      obtain ⟨s', hstatus, hcommitted, hevents, hjob', hresults⟩ := setJobStatus_final hjob₁ .completed rfl
        (Py.orElse reason "cohesion merge approved") ⟨h.score, .merge, h.threshold⟩ env.now
      refine ⟨s', ?_, hcommitted,
        ⟨{ familyId := h.job.familyId, jobId := id, eventType := .cohesionMerge, agentId := h.parentAgent },
          { familyId := job.familyId, jobId := id, eventType := .jobCompleted }, ?_, rfl, rfl, rfl, rfl⟩,
        ⟨_, hjob', rfl, rfl⟩, by rw [hresults]⟩
      · simp only [hgate hdecision, hexecute, hstatus]
      · rw [hevents, hevents₁, List.append_assoc]
        rfl
  | veto =>
      have hjob₁ : (emitEvent s
          { familyId := h.job.familyId, jobId := id, eventType := .cohesionVeto, agentId := h.parentAgent }
          ).working.getJob id = some h.job := hjob
      obtain ⟨s', hstatus, hcommitted, hevents, hjob', hresults⟩ := setJobStatus_final hjob₁ .failed rfl
        (Py.orElse reason "cohesion veto") ⟨h.score, .veto, h.threshold⟩ env.now
      refine ⟨s', hstatus, hcommitted,
        ⟨{ familyId := h.job.familyId, jobId := id, eventType := .cohesionVeto, agentId := h.parentAgent },
          { familyId := h.job.familyId, jobId := id, eventType := .jobCompleted }, ?_, rfl, rfl, rfl, rfl⟩,
        ⟨_, hjob', rfl, rfl⟩, by rw [hresults]⟩
      rw [hevents]
      exact List.append_assoc _ [_] [_]

/-- **The cohesion gate**: it raises exactly what it is to refuse, and then nothing has been written; what it decides
is recorded and committed. -/
theorem cohesionDecide_gate (ofText : String → Option FloatValue) (env : Environment) (s : Session Ledger) (id : JobId)
    (action reason : Option String) (force : Bool) (hpolicy : FloatPolicy s.working id)
    (hgate : actionText action = "merge" → (env.gate id).wrote = true) :
    let run := cohesionDecide ofText env s id action reason force
    ((∃ e, run.1 = .error e) ↔ Rejected env.rounding ofText s.working id action force) ∧
      (∀ e, run.1 = .error e → run.2 = s) ∧
      ∀ a, run.1 = .ok a → run.2.committed = run.2.working ∧
        Decided ofText env s.working run.2.committed id action a := by
  intro run
  rcases hear_spec ofText env action force hpolicy with ⟨⟨e, he⟩, hrejected⟩ | ⟨h, hok, hfine, hheard⟩
  · have hrun : run = (.error e, s) := by
      show cohesionDecide ofText env s id action reason force = _
      unfold cohesionDecide
      rw [he]
    rw [hrun]
    exact ⟨iff_of_true ⟨e, rfl⟩ hrejected, fun _ _ => rfl, fun a ha => by cases ha⟩
  · have hmerge : h.decision = .merge → (env.gate id).wrote = true :=
      fun hdecision => hgate (ofText?_eq_merge.mp (hdecision ▸ hheard.decision))
    obtain ⟨s', hsettle, hcommitted, hevents, hjob, hresult⟩ := settle_spec reason hheard.job hmerge
    have hrun : run = (.ok ⟨h.decision, h.score, h.threshold, s'.working.getJobDetail id⟩, s') := by
      show cohesionDecide ofText env s id action reason force = _
      unfold cohesionDecide
      rw [hok]
      simp only [hsettle]
    rw [hrun]
    refine ⟨iff_of_false (fun ⟨e, he⟩ => (by cases he)) hfine, fun e he => (by cases he),
      fun a ha => ⟨hcommitted, ?_⟩⟩
    obtain rfl := Except.ok.inj ha
    obtain ⟨family, hfamily, ht⟩ := hheard.threshold
    rw [hcommitted]
    exact ⟨hheard.decision, hheard.score, ⟨h.job, family, hheard.job, hfamily, ht⟩, hevents, hjob, hresult⟩

/-! ## The gate of a wave -/

/-- The session with the tables of a wave. -/
def commons (s : Session Ledger) : Session Commons := ⟨s.committed.toCommons, s.working.toCommons⟩

/-- A value as `float` reads it, what is not finite as what clamping makes of it. -/
def readFloat (ofText : String → Option FloatValue) (raw : Json Number) : FloatLike :=
  match raw.toFloat ofText with
  | .ok (.finite x) => some x
  | .ok x => some x.clamp
  | .error _ => none

theorem cohesionThreshold_read {p : Policy} (hp : p.cohesionMin = (policy.get? "cohesion_min").map (readFloat ofText))
    (h : ∀ raw, policy.get? "cohesion_min" = some raw → raw.overflows = false) :
    cohesionThreshold r ofText policy = .ok (City.cohesionThreshold r p) := by
  unfold cohesionThreshold City.cohesionThreshold
  rw [hp]
  cases hraw : policy.get? "cohesion_min" with
  | none => exact congrArg Except.ok (clamp_default r)
  | some raw =>
      rw [Option.getD_some, Option.map_some]
      unfold readFloat
      cases hrefused : raw.refused ofText with
      | true =>
          rcases Json.toFloat_refused hrefused with he | he
          · simp only [he]
          · simp only [he]
      | false =>
          obtain ⟨x, hx⟩ := Json.toFloat_read hrefused (h raw hraw)
          cases x <;> simp [hx, FloatValue.clamp]

theorem setJobStatus_commons {job : CityJobModel} (hjob : s.working.getJob id = some job) (status : CityJobStatus)
    (summary : Option String) (result : Option GateResult) (now : Time) :
    ∃ s', setJobStatus s id status summary result now = (.ok (), s') ∧
      City.setJobStatus (commons s) id status now = some (commons s') := by
  unfold setJobStatus City.setJobStatus
  have hjob' : (commons s).working.getJob id = some job := hjob
  rw [hjob, hjob']
  refine ⟨_, rfl, ?_⟩
  cases hfinal : status.final <;> rfl

theorem executeToolCalls_commons {job : CityJobModel} (hjob : s.working.getJob id = some job) (eventType : EventType)
    (agentId : Option Agent.AgentId) (outcome : ToolOutcome) :
    ∃ s' oks job', executeToolCalls s id [eventType] agentId outcome.wrote = (.ok (), s') ∧
      City.executeToolCalls (commons s) id [.emitVizEvent eventType] agentId true (fun _ => outcome) =
        some (oks, commons s') ∧ s'.working.getJob id = some job' := by
  obtain ⟨-, job', hjob', hfamily⟩ := markRunning_spec hjob
  have hcommons : (if job.status = .pending then
      (commons s).write (·.setJob id fun j => { j with status := .running }) else commons s) =
      commons (markRunning s id job) := by
    unfold markRunning
    split <;> rfl
  have hlookup : (commons s).working.getJob id = some job := hjob
  refine ⟨(emitVizEvent id agentId outcome.wrote (markRunning s id job) eventType).commit, [outcome.ok], job', ?_, ?_,
    ?_⟩
  · unfold executeToolCalls
    rw [hjob]
    rfl
  · unfold City.executeToolCalls
    rw [hlookup]
    show some ([outcome.ok], (runTool job agentId (ite _ _ _) (.emitVizEvent eventType, outcome)).commit) = _
    rw [hcommons]
    unfold runTool emitVizEvent
    rw [hjob']
    dsimp only
    rw [hfamily, getJob_id hjob', getJob_id hjob]
    cases outcome.wrote <;> rfl
  · unfold emitVizEvent
    rw [hjob']
    dsimp only
    cases outcome.wrote with
    | true => exact hjob'
    | false => exact hjob'

/-- **The gate of a wave is this gate**, for policies that are read as they are stored. -/
theorem cohesionDecide_commons (ofText : String → Option FloatValue) {d : Decision} (hpolicy : FloatPolicy s.working id)
    (hread : ∀ family ∈ s.working.families,
      family.policy.cohesionMin = ((s.working.policies family.id).get? "cohesion_min").map (readFloat ofText))
    (haction : Decision.ofText? (actionText action) = some d) (hadmits : env.gateAdmits id = true) :
    City.cohesionDecide env (commons s) id d force =
      let run := cohesionDecide ofText env s id action reason force
      match run.1 with
      | .ok a => some (a.decision, commons run.2)
      | .error _ => none := by
  unfold City.cohesionDecide cohesionDecide hear
  rw [haction]
  show ((s.working.getJob id).bind fun job => _) = _
  cases hjob : s.working.getJob id with
  | none => rfl
  | some job =>
  rw [Option.bind_some]
  show ((s.working.getFamily job.familyId).bind fun family => _) = _
  cases hfamily : s.working.getFamily job.familyId with
  | none => simp only [hfamily]; rfl
  | some family =>
  obtain ⟨score, hscore⟩ := exists_cohesionScore env.rounding hjob
  have ht := cohesionThreshold_read (r := env.rounding) (hread family (List.mem_of_find?_eq_some hfamily))
    fun raw => hpolicy job family raw hjob hfamily
  simp only [hfamily, hscore, ht, Option.bind_some]
  show ((cohesionScore env.rounding s.working.toCommons id).bind fun score => _) = _
  rw [hscore, Option.bind_some]
  cases d with
  | veto =>
      have hjob₁ (agentId : Option Agent.AgentId) : (emitEvent s
          { familyId := job.familyId, jobId := id, eventType := .cohesionVeto, agentId }).working.getJob id =
          some job := hjob
      obtain ⟨s', hstatus, hcommons⟩ := setJobStatus_commons
        (hjob₁ (((s.working.rowsOf env.order family.id).find? (·.roleInFamily = .parent)).map (·.agentId)))
        .failed (Py.orElse reason "cohesion veto")
        (some ⟨score, .veto, City.cohesionThreshold env.rounding family.policy⟩) env.now
      have hveto : ¬ (Decision.veto = .merge ∧ force = false ∧
          score.score < City.cohesionThreshold env.rounding family.policy) := fun h => by cases h.1
      simp only [if_neg hveto, settle, hstatus]
      exact congrArg (Option.bind · fun u => some (Decision.veto, u)) hcommons
  | merge =>
      by_cases hbelow : force = false ∧ score.score < City.cohesionThreshold env.rounding family.policy
      · have hno : (!force) = true ∧ score.score < City.cohesionThreshold env.rounding family.policy := by
          simpa using hbelow
        simp only [if_pos hno, true_and, if_pos hbelow]
      · have hyes : ¬ ((!force) = true ∧ score.score < City.cohesionThreshold env.rounding family.policy) := by
          simpa using hbelow
        obtain ⟨s₁, oks, job', hexecute, hcommons₁, hjob₁⟩ := executeToolCalls_commons hjob .cohesionMerge
          (((s.working.rowsOf env.order family.id).find? (·.roleInFamily = .parent)).map (·.agentId)) (env.gate id)
        obtain ⟨s', hstatus, hcommons⟩ := setJobStatus_commons hjob₁ .completed
          (Py.orElse reason "cohesion merge approved")
          (some ⟨score, .merge, City.cohesionThreshold env.rounding family.policy⟩) env.now
        simp only [if_neg hyes, true_and, if_neg hbelow, settle, hexecute, hstatus, hadmits]
        refine (congrArg (Option.bind · fun u => (City.setJobStatus u.2 id .completed env.now).bind fun v =>
          some (Decision.merge, v)) hcommons₁).trans ?_
        exact congrArg (Option.bind · fun u => some (Decision.merge, u)) hcommons

end

/-- A family that asks for all it can get, with a job nobody has worked on, and a family with a job its founder has
written about. -/
def hamlet : Ledger where
  families := [
    { id := 1, name := "Hamlet", description := none, defaultDistrict := .build, policy := {}, updatedAt := 0 },
    { id := 2, name := "Moss", description := none, defaultDistrict := .research, policy := {}, updatedAt := 0 }]
  members := [
    { id := 3, familyId := 2, agentId := 4, parentMemberId := none, roleInFamily := .parent, roleLabel := none,
      knobOverrides := [], toolTags := [], generation := 0, maxAgeTicks := 48, goals := [], dreams := [],
      structuredThinking := 1/2, growth := 0 }]
  agents := []
  personas := []
  jobs := [
    { id := 7, familyId := 1, district := .build, status := .pending, createdAt := 0 },
    { id := 8, familyId := 2, district := .research, status := .running, createdAt := 0 }]
  fresh := 9
  artifacts := [
    { jobId := 8, familyId := 2, path := "notes.md", content := some "done", sizeBytes := 4, version := 1,
      createdByAgentId := some 4 }]
  runs := []
  events := []
  policies family := .obj (if family = 1 then [("cohesion_min", .bool true)] else [])
  results _ := {}

/-- The merge of the job nobody has worked on is refused without a trace, its veto is recorded, and so is the merge
of the other job. -/
theorem cohesionDecide_hamlet :
    (cohesionDecide (fun _ => none) {} (.start hamlet) 7 (some "merge") none false).2 = .start hamlet ∧
      (∃ a, (cohesionDecide (fun _ => none) {} (.start hamlet) 7 (some " Veto ") none false).1 = .ok a ∧
        Decided (fun _ => none) {} hamlet
          (cohesionDecide (fun _ => none) {} (.start hamlet) 7 (some " Veto ") none false).2.committed 7
          (some " Veto ") a) ∧
      ∃ a, (cohesionDecide (fun _ => none) {} (.start hamlet) 8 (some "Merge") none false).1 = .ok a ∧
        a.decision = .merge ∧ a.cohesion.score = Binary64.fl (6/10) ∧ a.threshold = Binary64.fl (35/100) ∧
        Decided (fun _ => none) {} hamlet
          (cohesionDecide (fun _ => none) {} (.start hamlet) 8 (some "Merge") none false).2.committed 8
          (some "Merge") a := by
  have hpolicy (id : JobId) : FloatPolicy hamlet id := by
    intro job family raw _ _ hraw
    by_cases hfirst : family.id = 1
    · have hget : (hamlet.policies family.id).get? "cohesion_min" = some (.bool true) := by rw [hfirst]; rfl
      obtain rfl := Option.some.inj (hget.symm.trans hraw)
      rfl
    · have hget : hamlet.policies family.id = .obj [] := congrArg Json.obj (if_neg hfirst)
      rw [hget] at hraw
      cases hraw
  refine ⟨?_, ?_, ?_⟩
  · obtain ⟨hiff, hsame, -⟩ := cohesionDecide_gate (fun _ => none) {} (.start hamlet) 7 (some "merge") none false
      (hpolicy 7) fun _ => rfl
    have hzero : (cohesionScore .binary64 hamlet.toCommons 7).map (·.score) = some 0 := by decide +kernel
    obtain ⟨score, hscore, hvalue⟩ := Option.map_eq_some_iff.mp hzero
    have hone : IsThreshold .binary64 (fun _ => none) (hamlet.policies 1) 1 :=
      ⟨.finite 1, rfl, by norm_num [FloatValue.clamp]⟩
    have hlt : score.score < 1 := by rw [hvalue]; norm_num
    obtain ⟨e, he⟩ := hiff.mpr (.below rfl rfl hscore hone (by decide) rfl hlt)
    exact hsame e he
  · obtain ⟨hiff, -, hdecided⟩ := cohesionDecide_gate (fun _ => none) {} (.start hamlet) 7 (some " Veto ") none false
      (hpolicy 7) fun _ => rfl
    have hveto : actionText (some " Veto ") = "veto" := by decide
    have hfine : ¬ Rejected .binary64 (fun _ => none) hamlet 7 (some " Veto ") false := by
      rintro (h | h | ⟨hjob, h⟩ | ⟨-, -, -, -, hmerge, -, -⟩)
      · exact h.2 hveto
      · cases h
      · obtain rfl := Option.some.inj hjob
        cases h
      · rw [hveto] at hmerge
        exact absurd hmerge (by decide)
    cases hrun : (cohesionDecide (fun _ => none) {} (.start hamlet) 7 (some " Veto ") none false).1 with
    | error e => exact absurd (hiff.mp ⟨e, hrun⟩) hfine
    | ok a => exact ⟨a, rfl, (hdecided a hrun).2⟩
  · obtain ⟨-, -, hdecided⟩ := cohesionDecide_gate (fun _ => none) {} (.start hamlet) 8 (some "Merge") none false
      (hpolicy 8) fun _ => rfl
    have hanswer : (cohesionDecide (fun _ => none) {} (.start hamlet) 8 (some "Merge") none false).1.toOption.map
        (fun a => (a.decision, a.cohesion.score, a.threshold)) =
          some (.merge, Binary64.fl (6/10), Binary64.fl (35/100)) := by
      decide +kernel
    obtain ⟨a, ha, hvalues⟩ := Option.map_eq_some_iff.mp hanswer
    cases hrun : (cohesionDecide (fun _ => none) {} (.start hamlet) 8 (some "Merge") none false).1 with
    | error e =>
        rw [hrun] at ha
        cases ha
    | ok b =>
        rw [hrun] at ha
        obtain rfl := Option.some.inj ha
        obtain ⟨hdecision, hrest⟩ := Prod.mk.inj hvalues
        obtain ⟨hscore, hthreshold⟩ := Prod.mk.inj hrest
        exact ⟨b, rfl, hdecision, hscore, hthreshold, (hdecided b hrun).2⟩

end Ledger

end Persola.City
