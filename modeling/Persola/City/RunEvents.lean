import Persola.City.Cohesion
import Persola.City.Siblings

/-!
# `City.RunEvents` — what the event log of a job says about its runs

`record_run` writes a row and one event: `run.started` for a row that is pending, `run.finished` for any
other. The tools never record a pending row, so the log mirrors the rows of a job one by one, and every entry
of it says that a run has finished (`runEvents_mirror`). A call that reaches the sandbox leaves two such
entries and a row that stays running.
-/

namespace Persola.City

open Runs
open Agent (AgentId)

/-- The statuses a run can end in. -/
def WorkspaceRunStatus.terminal (status : WorkspaceRunStatus) : Bool :=
  status ∈ [.succeeded, .failed, .timeout, .denied]

/-- The event is about a run. -/
def CityEventModel.aboutRun (e : CityEventModel) : Bool :=
  e.eventType = .runStarted ∨ e.eventType = .runFinished

/-- The events about the runs of a job, in the order of the log. -/
def Commons.runEventsOf (db : Commons) (id : JobId) : List CityEventModel :=
  db.events.filter fun e => e.jobId = some id ∧ e.aboutRun

/-- The call has something to run, and comes back from the sandbox with a result or a denial. -/
def reachesSandbox (db : Commons) (id : JobId) : ToolUse → Bool
  | .workspaceWrite _ _ => false
  | .runPython args result =>
      match db.getJob id, runTarget db id args with
      | some _, .source source filename =>
          match sandboxFiles source filename (siblingFiles db id filename), result with
          | .ok _, .raised _ => false
          | _, _ => true
      | _, _ => false

/-- Between two states of the tables one run has begun and ended: its two events are what the log gained, and
no row was added that is still running. -/
structure PairsUp (id : JobId) (before after : Commons) : Prop where
  events : ∃ (started finished : CityEventModel) (status : WorkspaceRunStatus),
    after.runEventsOf id = before.runEventsOf id ++ [started, finished] ∧
      started.eventType = .runStarted ∧ finished.eventType = .runFinished ∧
      finished.status = some status ∧ status.terminal
  rows : ∀ run ∈ (after.runsOf id).drop (before.runsOf id).length, run.status ≠ .running

/-- The event of a row that is not pending. -/
def WorkspaceRunModel.finished (job : CityJobModel) (run : WorkspaceRunModel) : CityEventModel :=
  { familyId := job.familyId, jobId := run.jobId, eventType := .runFinished,
    agentId := run.startedByAgentId, status := run.status }

/-- What was recorded between two states of the tables: rows that are not pending, each with its event. -/
def Mirrors (job : CityJobModel) (before after : Commons) : Prop :=
  ∃ rows : List WorkspaceRunModel, (∀ run ∈ rows, run.status ≠ .pending) ∧
    after.runsOf job.id = before.runsOf job.id ++ rows ∧
    after.runEventsOf job.id = before.runEventsOf job.id ++ rows.map (·.finished job)

theorem Mirrors.refl (job : CityJobModel) (db : Commons) : Mirrors job db db := by
  refine ⟨[], ?_, ?_, ?_⟩
  · intro run hrun
    exact absurd hrun List.not_mem_nil
  · rw [List.append_nil]
  · rw [List.map_nil, List.append_nil]

theorem Mirrors.trans {job : CityJobModel} {r s t : Commons} (h : Mirrors job r s) (h' : Mirrors job s t) :
    Mirrors job r t := by
  obtain ⟨rows, hrows, hruns, hevents⟩ := h
  obtain ⟨rows', hrows', hruns', hevents'⟩ := h'
  refine ⟨rows ++ rows', ?_, ?_, ?_⟩
  · intro run hrun
    rcases List.mem_append.mp hrun with hrun | hrun
    · exact hrows run hrun
    · exact hrows' run hrun
  · rw [hruns', hruns, List.append_assoc]
  · rw [hevents', hevents, List.append_assoc, List.map_append]

section
variable {s t : Session Commons} {id : JobId} {agentId : Option AgentId} {job : CityJobModel}
  {args : RunArgs} {result : SandboxEnd} {use : ToolUse} {uses : List (Option AgentId × ToolUse)}

/-! ## Step lemmas -/

/-- An event about a run of the job is added to its log, any other is not. -/
theorem runEventsOf_append {db db' : Commons} {e : CityEventModel} (h : db'.events = db.events ++ [e])
    (id : JobId) :
    db'.runEventsOf id = db.runEventsOf id ++ if e.jobId = some id ∧ e.aboutRun then [e] else [] := by
  unfold Commons.runEventsOf
  rw [h, List.filter_append]
  by_cases he : e.jobId = some id ∧ e.aboutRun
  · rw [if_pos he, List.filter_singleton, decide_eq_true he]
    rfl
  · rw [if_neg he, List.filter_singleton, decide_eq_false he]
    rfl

/-- `record_run` adds its event to the log. -/
theorem recordRun_runEvents {status : WorkspaceRunStatus} (hstatus : status ≠ .pending) :
    (recordRun job agentId s status).working.runEventsOf job.id =
      s.working.runEventsOf job.id ++ [(⟨job.id, status, agentId⟩ : WorkspaceRunModel).finished job] := by
  have hevents : (recordRun job agentId s status).working.events =
      s.working.events ++ [(⟨job.id, status, agentId⟩ : WorkspaceRunModel).finished job] := by
    show s.working.events ++ [_] = _
    rw [if_neg hstatus]
    rfl
  rw [runEventsOf_append hevents, if_pos ⟨rfl, rfl⟩]

theorem recordRuns_runEvents {statuses : List WorkspaceRunStatus} (h : ∀ status ∈ statuses, status ≠ .pending) :
    (statuses.foldl (recordRun job agentId) s).working.runEventsOf job.id =
      s.working.runEventsOf job.id ++
        (statuses.map fun status => (⟨job.id, status, agentId⟩ : WorkspaceRunModel)).map (·.finished job) := by
  induction statuses generalizing s with
  | nil =>
      rw [List.foldl_nil, List.map_nil, List.map_nil, List.append_nil]
  | cons status rest ih =>
      obtain ⟨hstatus, hrest⟩ := List.forall_mem_cons.mp h
      rw [List.foldl_cons, ih hrest, recordRun_runEvents hstatus, List.append_assoc]
      rfl

theorem recordRuns_mirrors {statuses : List WorkspaceRunStatus} (h : ∀ status ∈ statuses, status ≠ .pending) :
    Mirrors job s.working (statuses.foldl (recordRun job agentId) s).working := by
  refine ⟨_, ?_, runsOf_recordRuns job agentId s statuses, recordRuns_runEvents h⟩
  intro run hrun
  obtain ⟨status, hmem, rfl⟩ := List.mem_map.mp hrun
  exact h status hmem

/-- No exit of `run_python` records a pending row. -/
theorem RunExit.not_pending {answer : ToolAnswer} {rows : List WorkspaceRunStatus} (h : RunExit answer rows) :
    ∀ status ∈ rows, status ≠ .pending := by
  cases h with
  | unrecorded h =>
      intro status hmem
      exact absurd hmem List.not_mem_nil
  | noArtifact | broken | rejected => simp
  | ended hstatus =>
      intro status hmem
      rcases List.mem_cons.mp hmem with rfl | hmem
      · simp
      · rw [List.mem_singleton.mp hmem]
        rintro rfl
        simp at hstatus

/-- Writing a file adds nothing to the log about runs. -/
theorem workspaceWrite_mirrors (path : String) (content : Option String)
    (hjob : s.working.getJob id = some job) :
    Mirrors job s.working (workspaceWrite s id agentId path content).2.working := by
  rcases workspaceWrite_cases agentId path content hjob with ⟨rel, text, -, h⟩ | ⟨-, h⟩
  · rw [h]
    refine ⟨[], ?_, ?_, ?_⟩
    · intro run hrun
      exact absurd hrun List.not_mem_nil
    · exact (List.append_nil _).symm
    · refine (runEventsOf_append rfl job.id).trans ?_
      rw [if_neg fun habout => Bool.false_ne_true habout.2]
      rfl
  · rw [h]
    exact Mirrors.refl job s.working

/-- **Step lemma**: what a call records about runs, it logs. -/
theorem useTool_mirrors (hjob : s.working.getJob id = some job) (agentId : Option AgentId) (use : ToolUse) :
    Mirrors job s.working (useTool id s agentId use).2.working := by
  cases use with
  | workspaceWrite path content =>
      rw [useTool]
      exact workspaceWrite_mirrors path content hjob
  | runPython args result =>
      obtain ⟨rows, hexit, hrun⟩ := runPython_exit agentId args result hjob
      rw [useTool, hrun]
      exact recordRuns_mirrors hexit.not_pending

/-- **Run lemma**: over any sequence of calls the log about the runs of a job mirrors its rows, and none of its
new entries says that a run has started. -/
theorem runEvents_mirror (hjob : s.working.getJob id = some job) (h : (workshop id).exec s uses = some t) :
    Mirrors job s.working t.working := by
  have hstep : ∀ (r : Session Commons) (use : Option AgentId × ToolUse) (r' : Session Commons),
      r.working.getJob id = some job → True → (workshop id).step r use = some r' →
        r'.working.getJob id = some job ∧ Mirrors job r.working r'.working := by
    intro r use r' hr _ hstep
    obtain rfl := Option.some.inj hstep
    refine ⟨?_, useTool_mirrors hr use.1 use.2⟩
    unfold Commons.getJob at hr ⊢
    rw [useTool_toStore hr]
    exact hr
  have htrans : ∀ a b c : Session Commons, Mirrors job a.working b.working → Mirrors job b.working c.working →
      Mirrors job a.working c.working := fun _ _ _ h h' => Mirrors.trans h h'
  exact System.Run.rel (fun r => Mirrors.refl job r.working) htrans hstep (System.run_of_exec h) hjob

/-! ## The sandbox -/

/-- **A call that reaches the sandbox** leaves two rows: one that is running, and one with its end. -/
theorem runPython_reached (hjob : s.working.getJob id = some job)
    (h : reachesSandbox s.working id (.runPython args result)) :
    ∃ status : WorkspaceRunStatus, status.terminal ∧
      (runPython s id agentId args result).session = [.running, status].foldl (recordRun job agentId) s := by
  unfold reachesSandbox at h
  unfold runPython
  rw [hjob] at h ⊢
  dsimp only at h ⊢
  split at h
  · next source filename _ heq =>
      rw [heq]
      dsimp only
      have hsame : siblingFiles (recordRun job agentId s .running).working id filename =
          siblingFiles s.working id filename := rfl
      rw [hsame]
      split
      · exact ⟨.denied, rfl, rfl⟩
      · next files e _ hfiles =>
          rw [hfiles] at h
          exact absurd h Bool.false_ne_true
      · exact ⟨.succeeded, rfl, rfl⟩
      · exact ⟨.failed, rfl, rfl⟩
      · exact ⟨.timeout, rfl, rfl⟩
  · exact absurd h Bool.false_ne_true

/-- Its events do not pair up. -/
theorem not_pairsUp_of_reaches (h : reachesSandbox s.working id use) :
    ¬ PairsUp id s.working (useTool id s agentId use).2.working := by
  cases use with
  | workspaceWrite path content => exact absurd h Bool.false_ne_true
  | runPython args result =>
      cases hjob : s.working.getJob id with
      | none => simp [reachesSandbox, hjob] at h
      | some job =>
          have hid : job.id = id := Table.key_of_find? hjob
          subst hid
          intro hpairs
          obtain ⟨started, finished, status, hlog, hstarted, -⟩ := hpairs.events
          obtain ⟨rows, -, -, hmirror⟩ := useTool_mirrors hjob agentId (.runPython args result)
          have hadded : [started, finished] = rows.map (·.finished job) :=
            List.append_cancel_left (hlog.symm.trans hmirror)
          have hmem : started ∈ rows.map (·.finished job) := by
            rw [← hadded]
            exact List.mem_cons_self ..
          obtain ⟨run, -, rfl⟩ := List.mem_map.mp hmem
          exact EventType.noConfusion hstarted

/-- **The first of its rows stays running**, whatever is called afterwards. -/
theorem running_stays (hjob : s.working.getJob id = some job)
    (h : reachesSandbox s.working id (.runPython args result))
    (hrun : (workshop id).exec (runPython s id agentId args result).session uses = some t) :
    (⟨job.id, .running, agentId⟩ : WorkspaceRunModel) ∈ t.working.runsOf job.id := by
  obtain ⟨status, -, hsession⟩ := runPython_reached hjob h
  have hjob' : (runPython s id agentId args result).session.working.getJob id = some job := by
    rw [hsession]
    exact hjob
  obtain ⟨rows, -, hruns, -⟩ := runEvents_mirror hjob' hrun
  rw [hruns, hsession, runsOf_recordRuns]
  refine List.mem_append_left _ (List.mem_append_right _ ?_)
  exact List.mem_cons_self ..

/-! ## Any sequence of calls -/

/-- **When run events pair up** for every call of a sequence that reaches the sandbox: iff there is no such
call. -/
theorem runEvents_pair_iff :
    (workshop id).Meets (fun r use => reachesSandbox r.working id use.2 →
        PairsUp id r.working (useTool id r use.1 use.2).2.working) s uses ↔
      (workshop id).Meets (fun r use => ¬ reachesSandbox r.working id use.2) s uses := by
  have hpairs : ∀ (r : Session Commons) (use : Option AgentId × ToolUse),
      (reachesSandbox r.working id use.2 → PairsUp id r.working (useTool id r use.1 use.2).2.working) ↔
        ¬ reachesSandbox r.working id use.2 := by
    intro r use
    constructor
    · intro hpairs hreaches
      exact not_pairsUp_of_reaches hreaches (hpairs hreaches)
    · intro hnot hreaches
      exact absurd hreaches hnot
  simp only [hpairs]

end

/-- Inline code that succeeds. -/
def printOnce : List (Option AgentId × ToolUse) := [(none, .runPython { code := some "print(1)" } .succeeded)]

/-- **One run of a script** does not pair up. -/
theorem runPython_unpaired : ¬ ∀ (id : JobId) (s : Session Commons) (uses : List (Option AgentId × ToolUse)),
    (workshop id).init s → (workshop id).Meets (fun r use => reachesSandbox r.working id use.2 →
      PairsUp id r.working (useTool id r use.1 use.2).2.working) s uses := by
  intro hclaim
  have hmeets := hclaim 1 (Session.start freshJob) printOnce ⟨rfl, rfl, rfl⟩
  have hreaches : reachesSandbox freshJob 1 (.runPython { code := some "print(1)" } .succeeded) = true := by
    decide +kernel
  exact not_pairsUp_of_reaches hreaches (hmeets.1 hreaches)

end Persola.City
