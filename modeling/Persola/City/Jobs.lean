import Persola.Lib.Runs
import Persola.City.Durability

/-!
# `City.Jobs` — the ends of jobs

Four calls assign the status of a job, and one of them alone, `set_job_status`, stamps the row and logs the end
of the job, when it is given a final status. So a job that is opened with a final status has neither, and one
that is set back to work keeps its stamp.
-/

namespace Persola.City

open Runs
open Agent (AgentId)

/-! ## Calls -/

/-- The status of this value. -/
def CityJobStatus.ofValue? : String → Option CityJobStatus
  | "pending" => some .pending
  | "planned" => some .planned
  | "running" => some .running
  | "completed" => some .completed
  | "failed" => some .failed
  | _ => none

/-- `start_job` with all its arguments; it raises for an unknown family, district or status. -/
def startJobWith (s : Session Commons) (familyId : FamilyId) (district : Option String) (status : String)
    (now : Time) : Option (JobId × Session Commons) := do
  let family ← s.working.getFamily familyId
  let resolvedDistrict ← CityDistrict.ofName? (Py.orElse district family.defaultDistrict.name)
  let status ← CityJobStatus.ofValue? status
  let job : CityJobModel :=
    { id := s.working.newJobId, familyId, district := resolvedDistrict, status, createdAt := now }
  let s := s.write fun db => { db with jobs := db.jobs ++ [job] }
  let s := emitEvent s { familyId, jobId := job.id, eventType := .jobStarted }
  return (job.id, s.commit)

/-- Without a status it opens a pending job. -/
theorem startJobWith_pending {s : Session Commons} {familyId : FamilyId} {district : CityDistrict} {now : Time} :
    startJobWith s familyId (some district.name) "pending" now = startJob s familyId district now := by
  unfold startJobWith startJob
  cases s.working.getFamily familyId with
  | none => rfl
  | some family => cases district <;> rfl

/-- The calls that assign the status of a job, with all that is up to the environment. -/
inductive JobCall
  | startJob (familyId : FamilyId) (district : Option String) (status : String) (now : Time)
  | executeToolCalls (id : JobId) (calls : List ToolCall) (agentId : Option AgentId) (admits : Bool)
      (outcome : ℕ → ToolOutcome)
  | setJobStatus (id : JobId) (status : String) (now : Time)
  | cohesionDecide (env : Environment) (id : JobId) (action : Decision) (force : Bool)

/-- The call on a session; `none` where it raises. -/
def JobCall.run (s : Session Commons) : JobCall → Option (Session Commons)
  | startJob familyId district status now => (startJobWith s familyId district status now).map Prod.snd
  | executeToolCalls id calls agentId admits outcome =>
      (City.executeToolCalls s id calls agentId admits outcome).map Prod.snd
  | setJobStatus id status now => do City.setJobStatus s id (← CityJobStatus.ofValue? status) now
  | cohesionDecide env id action force => (City.cohesionDecide env s id action force).map Prod.snd

/-- **The job desk**: calls one after another, each on a session of its own. Where a call raises, what it had
not committed is rolled back. -/
def jobDesk : System Commons JobCall where
  init db := db.jobs = []
  step db call := some (((call.run (.start db)).map Session.close).getD db)

/-! ## Ended jobs -/

/-- A job has a stamp if and only if it has ended, and its end is in the log. -/
structure CityJobModel.Settled (events : List CityEventModel) (job : CityJobModel) : Prop where
  stamped : job.completedAt.isSome ↔ job.status.final
  logged : job.status.final → ∃ e ∈ events, e.jobId = some job.id ∧ e.eventType = .jobCompleted

namespace Commons

/-- All jobs are settled. -/
def Settled (db : Commons) : Prop := ∀ id job, db.getJob id = some job → job.Settled db.events

/-- `db'` is `db` after work that left the rows of the jobs alone. -/
structure Logs (db db' : Commons) : Prop where
  jobs : db'.jobs = db.jobs
  events : db.events <+: db'.events

end Commons

open Commons

variable {db db' db'' : Commons} {s t : Session Commons} {id : JobId} {job : CityJobModel}
  {events events' : List CityEventModel} {status : CityJobStatus} {now : Time}

/-- A log that grows keeps a job settled. -/
theorem CityJobModel.Settled.mono (h : job.Settled events) (hevents : events <+: events') :
    job.Settled events' where
  stamped := h.stamped
  logged hfinal := by
    obtain ⟨e, he, hid, htype⟩ := h.logged hfinal
    exact ⟨e, hevents.subset he, hid, htype⟩

theorem CityJobModel.settled_open (hstatus : job.status.final = false) (hstamp : job.completedAt = none) :
    job.Settled events where
  stamped := by simp [hstatus, hstamp]
  logged hfinal := absurd hfinal (by simp [hstatus])

theorem Commons.Logs.refl (db : Commons) : db.Logs db := ⟨rfl, List.prefix_refl _⟩

theorem Commons.Logs.trans (h : db.Logs db') (h' : db'.Logs db'') : db.Logs db'' :=
  ⟨h'.jobs.trans h.jobs, h.events.trans h'.events⟩

theorem Commons.Logs.getJob (h : db.Logs db') : db'.getJob id = db.getJob id := by
  unfold Commons.getJob
  rw [h.jobs]

/-- Work that leaves the jobs alone keeps them settled. -/
theorem Commons.Logs.settled (h : db.Logs db') (hs : db.Settled) : db'.Settled := by
  intro id job hjob
  rw [h.getJob] at hjob
  exact (hs id job hjob).mono h.events

theorem emitEvent_logs {e : CityEventModel} : s.working.Logs (emitEvent s e).working :=
  ⟨rfl, List.prefix_append _ _⟩

/-! ## What the calls do to the jobs -/

/-- The tools leave the jobs alone. -/
theorem runTool_logs {agentId : Option AgentId} {call : ToolCall × ToolOutcome} :
    s.working.Logs (runTool job agentId s call).working := by
  have hrun {s : Session Commons} {status : WorkspaceRunStatus} :
      s.working.Logs (recordRun job agentId s status).working := ⟨rfl, List.prefix_append _ _⟩
  obtain ⟨tool, outcome⟩ := call
  cases tool with
  | workspaceWrite =>
      simp only [runTool]
      split
      · exact ⟨rfl, List.prefix_append _ _⟩
      · exact .refl _
  | runPython =>
      simp only [runTool]
      induction outcome.runs generalizing s with
      | nil => exact .refl _
      | cons status rest ih => exact hrun.trans ih
  | emitVizEvent eventType =>
      simp only [runTool]
      split
      · exact emitEvent_logs
      · exact .refl _

theorem runTools_logs {agentId : Option AgentId} {calls : List (ToolCall × ToolOutcome)} :
    s.working.Logs (calls.foldl (runTool job agentId) s).working := by
  induction calls generalizing s with
  | nil => exact .refl _
  | cons call rest ih => exact runTool_logs.trans ih

/-- A change of rows that keeps settled jobs settled. -/
theorem Commons.Settled.setJob {f : CityJobModel → CityJobModel} (h : db.Settled) (hf : ∀ x, (f x).id = x.id)
    (hjob : ∀ job, db.getJob id = some job → (f job).Settled db.events) : (db.setJob id f).Settled := by
  intro i job' hget
  rw [getJob_setJob hf] at hget
  obtain ⟨job, hold, rfl⟩ := Option.map_eq_some_iff.mp hget
  split
  · next hi => exact hjob job (hi ▸ hold)
  · exact h i job hold

/-- **`execute_tool_calls`** keeps the jobs settled: it sets a pending job to running and logs. -/
theorem executeToolCalls_settled {calls : List ToolCall} {agentId : Option AgentId} {admits : Bool}
    {outcome : ℕ → ToolOutcome} {oks : List Bool} (hs : s.working.Settled)
    (h : executeToolCalls s id calls agentId admits outcome = some (oks, t)) :
    t.working.Settled ∧ t.committed = t.working := by
  obtain ⟨job, hjob, h⟩ := Option.bind_eq_some_iff.mp h
  obtain ⟨-, h⟩ := Option.ite_none_right_eq_some.mp h
  obtain ⟨-, rfl⟩ := Prod.mk.inj (Option.some.inj h)
  refine ⟨?_, rfl⟩
  apply runTools_logs.settled
  split
  · next hpending =>
      apply hs.setJob (f := fun x => { x with status := .running }) fun _ => rfl
      intro job' hjob'
      obtain rfl : job = job' := Option.some.inj (hjob.symm.trans hjob')
      have hstamp : job.completedAt = none := by
        have hstamped := (hs id job hjob).stamped
        rw [hpending] at hstamped
        simpa [CityJobStatus.final] using hstamped
      exact CityJobModel.settled_open rfl hstamp
  · exact hs

/-- **`set_job_status`** keeps the jobs settled exactly if it ends the job or finds it without a stamp. -/
theorem setJobStatus_settled (hs : s.working.Settled) (h : setJobStatus s id status now = some t) :
    t.committed = t.working ∧ (t.working.Settled ↔
      (status.final = false → ∀ job, s.working.getJob id = some job → job.status.final = false)) := by
  obtain ⟨job, hjob, h⟩ := Option.bind_eq_some_iff.mp h
  obtain rfl := Option.some.inj h
  refine ⟨rfl, ?_⟩
  cases hfinal : status.final with
  | true =>
      refine iff_of_true ?_ fun hopen => nomatch hopen
      let e : CityEventModel := { familyId := job.familyId, jobId := job.id, eventType := .jobCompleted }
      have hnew : ∀ i job', (s.working.setJob id (·.withStatus status now)).getJob i = some job' →
          job'.Settled (s.working.events ++ [e]) := by
        intro i job' hget
        rw [getJob_setJob (f := (·.withStatus status now)) fun _ => rfl] at hget
        obtain ⟨old, hold, rfl⟩ := Option.map_eq_some_iff.mp hget
        split
        · next hi =>
            obtain rfl : job = old := Option.some.inj (hjob.symm.trans (hi ▸ hold))
            refine ⟨?_, fun _ => ⟨e, by simp, rfl, rfl⟩⟩
            simp [CityJobModel.withStatus, hfinal]
        · exact (hs i old hold).mono (List.prefix_append _ _)
      exact hnew
  | false =>
      rw [if_neg (by simp)]
      have hget : (s.working.setJob id (·.withStatus status now)).getJob id = some (job.withStatus status now) := by
        rw [getJob_setJob (f := (·.withStatus status now)) fun _ => rfl, hjob]
        simp
      have hstamp : (job.withStatus status now).completedAt = job.completedAt := by
        simp [CityJobModel.withStatus, hfinal]
      constructor
      · rintro hsettled - job' hjob'
        obtain rfl : job = job' := Option.some.inj (hjob.symm.trans hjob')
        have hnone := (hsettled id _ hget).stamped.not.mpr (by simp [CityJobModel.withStatus, hfinal])
        rw [hstamp] at hnone
        rw [← Bool.not_eq_true]
        exact fun hend => hnone ((hs id job hjob).stamped.mpr hend)
      · intro hopen
        apply hs.setJob (f := (·.withStatus status now)) fun _ => rfl
        intro job' hjob'
        have hstatus := hopen rfl job' hjob'
        obtain rfl : job = job' := Option.some.inj (hjob.symm.trans hjob')
        have hnone : job.completedAt = none := by
          have hstamped := (hs id job hjob).stamped
          rw [hstatus] at hstamped
          simpa using hstamped
        exact CityJobModel.settled_open hfinal (hstamp.trans hnone)

/-- **`cohesion_decide`** keeps the jobs settled: both its decisions end the job. -/
theorem cohesionDecide_settled {env : Environment} {action d : Decision} {force : Bool} (hs : s.working.Settled)
    (h : cohesionDecide env s id action force = some (d, t)) :
    t.working.Settled ∧ t.committed = t.working := by
  obtain ⟨job, -, h⟩ := Option.bind_eq_some_iff.mp h
  obtain ⟨family, -, h⟩ := Option.bind_eq_some_iff.mp h
  obtain ⟨score, -, h⟩ := Option.bind_eq_some_iff.mp h
  cases action with
  | merge =>
      dsimp only at h
      split at h
      · cases h
      · obtain ⟨⟨oks, u⟩, hexecute, h⟩ := Option.bind_eq_some_iff.mp h
        obtain ⟨v, hstatus, h⟩ := Option.bind_eq_some_iff.mp h
        obtain ⟨-, rfl⟩ := Prod.mk.inj (Option.some.inj h)
        obtain ⟨hu, -⟩ := executeToolCalls_settled hs hexecute
        obtain ⟨hcommitted, hsettled⟩ := setJobStatus_settled hu hstatus
        exact ⟨hsettled.mpr (fun hopen => nomatch hopen), hcommitted⟩
  | veto =>
      obtain ⟨v, hstatus, h⟩ := Option.bind_eq_some_iff.mp h
      obtain ⟨-, rfl⟩ := Prod.mk.inj (Option.some.inj h)
      obtain ⟨hcommitted, hsettled⟩ := setJobStatus_settled (emitEvent_logs.settled hs) hstatus
      exact ⟨hsettled.mpr (fun hopen => nomatch hopen), hcommitted⟩

/-- A new id is the id of no job. -/
theorem Commons.getJob_newJobId : db.getJob db.newJobId = none := by
  refine List.find?_eq_none.mpr fun job hjob heq => ?_
  have hid : job.id = db.newJobId := of_decide_eq_true heq
  have hmem : job.id ∈ db.jobs.map (·.id) ++ db.events.filterMap (·.jobId) :=
    List.mem_append_left _ (List.mem_map_of_mem hjob)
  have hle : job.id ≤ (db.jobs.map (·.id) ++ db.events.filterMap (·.jobId)).max?.getD 0 :=
    List.le_max?_getD_of_mem hmem
  rw [hid] at hle
  exact absurd hle (Nat.not_le_of_lt (Nat.lt_succ_self _))

/-- **`start_job`** keeps the jobs settled exactly if it opens the job with a status that is not final. -/
theorem startJobWith_settled {familyId : FamilyId} {district : Option String} {value : String} {j : JobId}
    (hs : s.working.Settled) (h : startJobWith s familyId district value now = some (j, t)) :
    t.committed = t.working ∧
      (t.working.Settled ↔ ∀ status, CityJobStatus.ofValue? value = some status → status.final = false) := by
  obtain ⟨family, -, h⟩ := Option.bind_eq_some_iff.mp h
  obtain ⟨resolved, -, h⟩ := Option.bind_eq_some_iff.mp h
  obtain ⟨status, hstatus, h⟩ := Option.bind_eq_some_iff.mp h
  obtain ⟨-, rfl⟩ := Prod.mk.inj (Option.some.inj h)
  refine ⟨rfl, ?_⟩
  let new : CityJobModel :=
    { id := s.working.newJobId, familyId, district := resolved, status, createdAt := now }
  let opened := emitEvent (s.write fun db => { db with jobs := db.jobs ++ [new] })
    { familyId, jobId := new.id, eventType := .jobStarted }
  have hold {i : JobId} (hi : i ≠ new.id) : opened.working.getJob i = s.working.getJob i := by
    simp [opened, emitEvent, Commons.getJob, hi.symm]
  have hnew : opened.working.getJob new.id = some new := by
    have hnone : s.working.jobs.find? (fun job => decide (job.id = new.id)) = none :=
      Commons.getJob_newJobId
    show (s.working.jobs ++ [new]).find? _ = _
    rw [List.find?_append, hnone]
    simp
  show opened.working.Settled ↔ _
  constructor
  · intro hsettled status' hstatus'
    obtain rfl : status = status' := Option.some.inj (hstatus.symm.trans hstatus')
    have hstamped : (none : Option Time).isSome ↔ status.final := (hsettled new.id new hnew).stamped
    simpa using hstamped
  · intro hopen i job hjob
    by_cases hi : i = new.id
    · obtain rfl : new = job := Option.some.inj (hnew.symm.trans (hi ▸ hjob))
      exact CityJobModel.settled_open (hopen status hstatus) rfl
    · rw [hold hi] at hjob
      exact (hs i job hjob).mono (List.prefix_append _ _)

/-! ## Runs -/

/-- The call neither opens a job that has ended nor sets one that has back to work. -/
def JobCall.Regular (db : Commons) : JobCall → Prop
  | startJob familyId district status _ =>
      ∀ family ∈ db.getFamily familyId,
        (CityDistrict.ofName? (Py.orElse district family.defaultDistrict.name)).isSome →
          ∀ st ∈ CityJobStatus.ofValue? status, st.final = false
  | setJobStatus id status _ =>
      ∀ st ∈ CityJobStatus.ofValue? status, st.final = false →
        ∀ job ∈ db.getJob id, job.status.final = false
  | executeToolCalls .. | cohesionDecide .. => True

instance (db : Commons) (call : JobCall) : Decidable (call.Regular db) := by
  cases call <;> unfold JobCall.Regular <;> infer_instance

/-- A call that raises is rolled back. -/
theorem step_of_raised {call : JobCall} (hrun : call.run (.start db) = none) (h : jobDesk.step db call = some db') :
    db' = db := by
  have hnext : ((call.run (.start db)).map Session.close).getD db = db' := Option.some.inj h
  rw [← hnext, hrun]
  rfl

/-- What a call has committed is the next state. -/
theorem step_of_committed {call : JobCall} (hrun : call.run (.start db) = some t) (ht : t.committed = t.working)
    (h : jobDesk.step db call = some db') : db' = t.working := by
  have hnext : ((call.run (.start db)).map Session.close).getD db = db' := Option.some.inj h
  rw [← hnext, hrun]
  exact ht

/-- **One call** keeps the jobs settled exactly if it is regular. -/
theorem step_settled {call : JobCall} (hs : db.Settled) (h : jobDesk.step db call = some db') :
    db'.Settled ↔ call.Regular db := by
  cases call with
  | startJob familyId district status now =>
      cases hrun : startJobWith (.start db) familyId district status now with
      | none =>
          rw [step_of_raised (by simp [JobCall.run, hrun]) h]
          refine iff_of_true hs fun family hfamily hdistrict st hst => ?_
          obtain ⟨resolved, hresolved⟩ := Option.isSome_iff_exists.mp hdistrict
          simp [startJobWith] at hrun
          exact absurd hst (hrun family hfamily resolved hresolved st)
      | some r =>
          obtain ⟨j, t⟩ := r
          obtain ⟨hcommitted, hsettled⟩ := startJobWith_settled (s := .start db) hs hrun
          rw [step_of_committed (by simp [JobCall.run, hrun]) hcommitted h, hsettled]
          obtain ⟨family, hfamily, hrest⟩ := Option.bind_eq_some_iff.mp hrun
          obtain ⟨resolved, hresolved, -⟩ := Option.bind_eq_some_iff.mp hrest
          constructor
          · exact fun h _ _ _ => h
          · exact fun h => h family hfamily (by rw [hresolved]; rfl)
  | executeToolCalls id calls agentId admits outcome =>
      refine iff_of_true ?_ trivial
      cases hrun : executeToolCalls (.start db) id calls agentId admits outcome with
      | none =>
          rw [step_of_raised (by simp [JobCall.run, hrun]) h]
          exact hs
      | some r =>
          obtain ⟨oks, t⟩ := r
          obtain ⟨hsettled, hcommitted⟩ := executeToolCalls_settled (s := .start db) hs hrun
          rw [step_of_committed (by simp [JobCall.run, hrun]) hcommitted h]
          exact hsettled
  | setJobStatus id status now =>
      cases hvalue : CityJobStatus.ofValue? status with
      | none =>
          rw [step_of_raised (by simp [JobCall.run, hvalue]) h]
          simpa [JobCall.Regular, hvalue] using hs
      | some st =>
          cases hrun : setJobStatus (.start db) id st now with
          | none =>
              have hnone : db.getJob id = none := by
                cases hjob : db.getJob id with
                | none => rfl
                | some job => simp [setJobStatus, hjob] at hrun
              rw [step_of_raised (by simp [JobCall.run, hvalue, hrun]) h]
              simpa [JobCall.Regular, hvalue, hnone] using hs
          | some t =>
              obtain ⟨hcommitted, hsettled⟩ := setJobStatus_settled (s := .start db) hs hrun
              rw [step_of_committed (by simp [JobCall.run, hvalue, hrun]) hcommitted h, hsettled]
              simp [JobCall.Regular, hvalue]
  | cohesionDecide env id action force =>
      refine iff_of_true ?_ trivial
      cases hrun : cohesionDecide env (.start db) id action force with
      | none =>
          rw [step_of_raised (by simp [JobCall.run, hrun]) h]
          exact hs
      | some r =>
          obtain ⟨d, t⟩ := r
          obtain ⟨hsettled, hcommitted⟩ := cohesionDecide_settled (s := .start db) hs hrun
          rw [step_of_committed (by simp [JobCall.run, hrun]) hcommitted h]
          exact hsettled

/-- **All jobs are settled throughout a run exactly if its calls are regular.** -/
theorem settled_throughout_iff {s₀ : Commons} {calls : List JobCall} {t : Commons} (h0 : jobDesk.init s₀)
    (h : jobDesk.exec s₀ calls = some t) :
    jobDesk.Throughout Commons.Settled s₀ calls ↔ jobDesk.Meets (fun db call => call.Regular db) s₀ calls := by
  have hnone : s₀.Settled := by
    intro id job hjob
    have hjobs : s₀.jobs = [] := h0
    simp [Commons.getJob, hjobs] at hjob
  exact System.throughout_iff (I := fun _ => True) (fun _ _ _ _ hs hst => ⟨trivial, step_settled hs hst⟩) trivial
    hnone h

/-- A city with one family and no job. -/
def jobless : Commons :=
  { families :=
      [{ id := 1, name := "Moss", description := none, defaultDistrict := .build, policy := {}, updatedAt := 0 }]
    members := [], agents := [], personas := [], jobs := [], fresh := 2, artifacts := [], runs := [], events := [] }

theorem init_jobless : jobDesk.init jobless := rfl

/-- A job that is started, worked on and merged by force. -/
def jobMerged : List JobCall :=
  [.startJob 1 none "planned" 1, .executeToolCalls 1 [.workspaceWrite] none true fun _ => {},
   .setJobStatus 1 "running" 2, .cohesionDecide { now := 3 } 1 .merge true]

theorem settled_jobMerged : (jobDesk.exec jobless jobMerged).isSome ∧
    jobDesk.Throughout Commons.Settled jobless jobMerged := by
  have hsome : (jobDesk.exec jobless jobMerged).isSome = true := rfl
  obtain ⟨db, hrun⟩ := Option.isSome_iff_exists.mp hsome
  exact ⟨hsome, (settled_throughout_iff init_jobless hrun).mpr (by decide +kernel)⟩

/-- **A job that is opened as completed** has neither stamp nor event. -/
theorem startJob_unstamped : ¬ ∀ db, jobDesk.Reachable db → db.Settled := by
  intro hall
  have hex : ((jobDesk.exec jobless [.startJob 1 none "completed" 1]).any fun db =>
      (db.getJob 1).any fun job => job.status.final && job.completedAt.isNone) = true := by
    decide +kernel
  obtain ⟨db, hrun, hjob⟩ := System.exists_of_exec hex
  obtain ⟨job, hjob, hopen⟩ := (Option.any_eq_true ..).mp hjob
  obtain ⟨hfinal, hnone⟩ := Bool.and_eq_true_iff.mp hopen
  have hstamped := ((hall db (System.reachable_of_exec init_jobless hrun)) 1 job hjob).stamped.mpr hfinal
  rw [Option.isNone_iff_eq_none.mp hnone] at hstamped
  cases hstamped

end Persola.City
