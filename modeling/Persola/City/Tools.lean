import Persola.City.Commons
import Persola.City.Sandbox

/-!
# `City.Tools` — the tools that write and run the files of a job

`workspace_write`, `workspace_read` and `run_python`, bound to a job and an agent. What the child process of
a run does is up to the environment; which files it finds and which rows the call leaves is not. Every call
is one of the tool calls a batch is made of (`useTool_eq_runTool`).
-/

namespace Persola.City

open Agent (AgentId)

/-- What a tool answers: a result, a refusal, or an exception, which its caller reports. -/
inductive ToolAnswer
  | written
  | ran (status : WorkspaceRunStatus)
  | denied (error : String)
  | raised (error : String)
deriving DecidableEq, Repr

/-- The `ok` of an answer. -/
def ToolAnswer.ok : ToolAnswer → Bool
  | .written => true
  | .ran status => status = .succeeded
  | .denied _ | .raised _ => false

/-! ## Writing and reading -/

/-- `workspace_write`. -/
def workspaceWrite (s : Session Commons) (id : JobId) (agentId : Option AgentId) (path : String)
    (content : Option String) : ToolAnswer × Session Commons :=
  match s.working.getJob id with
  | none => (.raised "Job not found", s)
  | some job =>
      match sanitizeWorkspacePath path, content with
      | .error e, _ => (.raised e, s)
      | .ok _, none => (.denied "content is required", s)
      | .ok path, some content => (.written, recordArtifact s job path (some content) agentId)

/-- `workspace_read`: the artifact, if there is one. -/
def workspaceRead (db : Commons) (id : JobId) (path : String) :
    Except String (Option WorkspaceArtifactModel) :=
  match db.getJob id with
  | none => .error "Job not found"
  | some _ => (sanitizeWorkspacePath path).map (db.getLatestByPath id)

/-! ## Running -/

/-- The arguments of `run_python`. -/
structure RunArgs where
  path : Option String := none
  code : Option String := none
  filename : Option String := none
deriving DecidableEq, Repr

/-- How the child process ends; `raised` stands for any exception but a `SandboxError`. -/
inductive SandboxEnd
  | succeeded | failed | timeout
  | raised (error : String)
deriving DecidableEq, Repr

/-- What a call is to run. -/
inductive RunTarget
  | source (source filename : String)
  | noArtifact
  | noArgument
  | invalid (error : String)

/-- The source and the file name of a run: those of an artifact if a path is given, else the code. -/
def runTarget (db : Commons) (id : JobId) (args : RunArgs) : RunTarget :=
  match args.path.filter (· ≠ ""), args.code with
  | some path, _ =>
      match sanitizeWorkspacePath path with
      | .error e => .invalid e
      | .ok rel =>
          match (db.getLatestByPath id rel).bind (·.content) with
          | none => .noArtifact
          | some source => .source source rel
  | none, some code =>
      match sanitizeWorkspacePath (Py.orElse args.filename "main.py") with
      | .error e => .invalid e
      | .ok filename => .source code filename
  | none, none => .noArgument

/-- An artifact is small enough to be put beside a script. -/
def WorkspaceArtifactModel.small (a : WorkspaceArtifactModel) : Bool := a.sizeBytes < 100000

/-- The sibling artifacts of a run, as its loop collects them. -/
def siblingFiles (db : Commons) (id : JobId) (filename : String) : List (String × String) :=
  Py.assign [] ((db.listArtifacts id 50).filterMap fun a =>
    if a.path ≠ filename ∧ a.small then a.content.map fun content => (a.path, content) else none)

/-- A call of `run_python`: its answer, the files its script found and the session afterwards. -/
structure PythonRun where
  answer : ToolAnswer
  filename : String := ""
  files : List (String × String) := []
  session : Session Commons

/-- `run_python`. -/
def runPython (s : Session Commons) (id : JobId) (agentId : Option AgentId) (args : RunArgs)
    (result : SandboxEnd) : PythonRun :=
  match s.working.getJob id with
  | none => { answer := .raised "Job not found", session := s }
  | some job =>
      match runTarget s.working id args with
      | .invalid e => { answer := .raised e, session := s }
      | .noArgument => { answer := .denied "path or code is required", session := s }
      | .noArtifact =>
          { answer := .denied "artifact not found or empty", session := recordRun job agentId s .denied }
      | .source source filename =>
          -- recorded as running first; this row is never changed
          let s := recordRun job agentId s .running
          match sandboxFiles source filename (siblingFiles s.working id filename), result with
          | .error e, _ => { answer := .denied e, filename, session := recordRun job agentId s .denied }
          | .ok files, .raised e => { answer := .raised e, filename, files, session := s }
          | .ok files, .succeeded =>
              { answer := .ran .succeeded, filename, files, session := recordRun job agentId s .succeeded }
          | .ok files, .failed =>
              { answer := .ran .failed, filename, files, session := recordRun job agentId s .failed }
          | .ok files, .timeout =>
              { answer := .ran .timeout, filename, files, session := recordRun job agentId s .timeout }

/-! ## Any sequence of calls -/

/-- A call of one of the two tools that leave something behind. -/
inductive ToolUse
  | workspaceWrite (path : String) (content : Option String)
  | runPython (args : RunArgs) (result : SandboxEnd)

/-- One call on job `id`. -/
def useTool (id : JobId) (s : Session Commons) (agentId : Option AgentId) :
    ToolUse → ToolAnswer × Session Commons
  | .workspaceWrite path content => workspaceWrite s id agentId path content
  | .runPython args result =>
      let run := runPython s id agentId args result
      (run.answer, run.session)

/-- **The workshop of a job**: agents use the tools on it, in any order, from when it has been started. -/
def workshop (id : JobId) : Runs.System (Session Commons) (Option AgentId × ToolUse) where
  init s := (s.working.getJob id).isSome ∧ s.working.artifactsOf id = [] ∧ s.working.runsOf id = []
  step s use := some (useTool id s use.1 use.2).2

/-! ## What a call leaves behind -/

/-- The ways out of `run_python`: the answer and the statuses of the rows it has recorded. -/
inductive RunExit : ToolAnswer → List WorkspaceRunStatus → Prop
  | unrecorded {answer : ToolAnswer} (h : answer.ok = false) : RunExit answer []
  | noArtifact {e : String} : RunExit (.denied e) [.denied]
  | broken {e : String} : RunExit (.raised e) [.running]
  | rejected {e : String} : RunExit (.denied e) [.running, .denied]
  | ended {status : WorkspaceRunStatus} (h : status ∈ [.succeeded, .failed, .timeout]) :
      RunExit (.ran status) [.running, status]

section
variable {s : Session Commons} {id : JobId} {agentId : Option AgentId} {job : CityJobModel}
  {args : RunArgs} {result : SandboxEnd} {path : String} {content : Option String}

/-- **`run_python`** takes one of its exits and writes nothing but its rows. -/
theorem runPython_exit (agentId : Option AgentId) (args : RunArgs) (result : SandboxEnd)
    (hjob : s.working.getJob id = some job) :
    ∃ rows, RunExit (runPython s id agentId args result).answer rows ∧
      (runPython s id agentId args result).session = rows.foldl (recordRun job agentId) s := by
  unfold runPython
  rw [hjob]
  dsimp only
  split
  · exact ⟨[], .unrecorded rfl, rfl⟩
  · exact ⟨[], .unrecorded rfl, rfl⟩
  · exact ⟨[.denied], .noArtifact, rfl⟩
  · split
    · exact ⟨[.running, .denied], .rejected, rfl⟩
    · exact ⟨[.running], .broken, rfl⟩
    · exact ⟨[.running, .succeeded], .ended (by simp), rfl⟩
    · exact ⟨[.running, .failed], .ended (by simp), rfl⟩
    · exact ⟨[.running, .timeout], .ended (by simp), rfl⟩

/-- **`workspace_write`** records its artifact or nothing. -/
theorem workspaceWrite_cases (agentId : Option AgentId) (path : String) (content : Option String)
    (hjob : s.working.getJob id = some job) :
    (∃ rel text, sanitizeWorkspacePath path = .ok rel ∧
      workspaceWrite s id agentId path content = (.written, recordArtifact s job rel (some text) agentId)) ∨
      (workspaceWrite s id agentId path content).1.ok = false ∧
        (workspaceWrite s id agentId path content).2 = s := by
  unfold workspaceWrite
  rw [hjob]
  dsimp only
  split
  · exact .inr ⟨rfl, rfl⟩
  · exact .inr ⟨rfl, rfl⟩
  · next rel text hrel => exact .inl ⟨rel, text, hrel, rfl⟩

/-- **Every call is a tool call of a batch**, with an outcome that fits. -/
theorem useTool_eq_runTool (hjob : s.working.getJob id = some job) (use : ToolUse) :
    ∃ (call : ToolCall) (outcome : ToolOutcome), outcome.ok = (useTool id s agentId use).1.ok ∧
      (useTool id s agentId use).2 = runTool job agentId s (call, outcome) := by
  cases use with
  | workspaceWrite path content =>
      rcases workspaceWrite_cases agentId path content hjob with
        ⟨rel, text, -, h⟩ | ⟨hok, h⟩
      · refine ⟨.workspaceWrite, { path := rel, content := text }, ?_, ?_⟩
        · show true = (workspaceWrite s id agentId path content).1.ok
          rw [h]
          rfl
        · show (workspaceWrite s id agentId path content).2 = _
          rw [h]
          rfl
      · exact ⟨.workspaceWrite, { ok := false, wrote := false }, hok.symm, h⟩
  | runPython args result =>
      obtain ⟨rows, -, h⟩ := runPython_exit agentId args result hjob
      exact ⟨.runPython, { ok := (runPython s id agentId args result).answer.ok, runs := rows }, rfl, h⟩

/-! ## Frames -/

/-- Runs touch nothing but their own table, where they are appended in order. -/
theorem recordRuns_working (job : CityJobModel) (agentId : Option AgentId) (s : Session Commons)
    (rows : List WorkspaceRunStatus) :
    (rows.foldl (recordRun job agentId) s).working.artifacts = s.working.artifacts ∧
      (rows.foldl (recordRun job agentId) s).working.toStore = s.working.toStore ∧
      (rows.foldl (recordRun job agentId) s).working.runs =
        s.working.runs ++ rows.map fun status => ⟨job.id, status, agentId⟩ := by
  induction rows generalizing s with
  | nil => simp
  | cons status rows ih =>
      obtain ⟨hartifacts, hstore, hruns⟩ := ih (recordRun job agentId s status)
      refine ⟨hartifacts, hstore, hruns.trans ?_⟩
      show (s.working.runs ++ [_]) ++ _ = _
      rw [List.append_assoc]
      rfl

/-- Writing a file touches neither the families and their jobs nor the runs. -/
theorem workspaceWrite_frame : (workspaceWrite s id agentId path content).2.working.toStore = s.working.toStore ∧
    (workspaceWrite s id agentId path content).2.working.runs = s.working.runs := by
  unfold workspaceWrite
  split
  · exact ⟨rfl, rfl⟩
  · split
    · exact ⟨rfl, rfl⟩
    · exact ⟨rfl, rfl⟩
    · exact ⟨rfl, rfl⟩

/-- **No call touches the families and their jobs.** -/
theorem useTool_toStore (hjob : s.working.getJob id = some job) (use : ToolUse) :
    (useTool id s agentId use).2.working.toStore = s.working.toStore := by
  cases use with
  | workspaceWrite path content =>
      rw [useTool]
      exact workspaceWrite_frame.1
  | runPython args result =>
      obtain ⟨rows, -, hrun⟩ := runPython_exit agentId args result hjob
      rw [useTool, hrun]
      exact (recordRuns_working job agentId s rows).2.1

/-- So the job stays there. -/
theorem useTool_getJob (agentId : Option AgentId) (hjob : (s.working.getJob id).isSome) (use : ToolUse) :
    ((useTool id s agentId use).2.working.getJob id).isSome := by
  obtain ⟨job, hj⟩ := Option.isSome_iff_exists.mp hjob
  unfold Commons.getJob at hjob ⊢
  rw [useTool_toStore hj]
  exact hjob

end

end Persola.City
