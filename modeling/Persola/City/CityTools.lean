import Persola.City.Siblings
import Persola.Tools.Parallel

/-!
# `City.CityTools` — the commons tools in a registry

`register_city_tools` binds its five tools to a job and an agent. Two of them only read; of the others one writes
files, and what it writes is what the two read.
-/

namespace Persola.City

open Agent (AgentId)
open Tools

/-! ## Events -/

/-- The text of an event type. -/
def EventType.value : EventType → String
  | jobStarted => "job.started"
  | jobCompleted => "job.completed"
  | artifactWritten => "artifact.written"
  | runStarted => "run.started"
  | runFinished => "run.finished"
  | vizPulse => "viz.pulse"
  | cohesionMerge => "cohesion.merge"
  | cohesionVeto => "cohesion.veto"
  | waveStarted .pulse => "city.pulse.started"
  | waveStarted .conduct => "city.conduct.started"
  | waveFinished .pulse => "city.pulse.finished"
  | waveFinished .conduct => "city.conduct.finished"
  | agentSpawned => "agent.spawned"
  | vizCustom => "viz.custom"

/-- `ALLOWED_VIZ_EVENT_TYPES`. -/
def allowedVizEventTypes : List EventType :=
  [.agentSpawned, .artifactWritten, .runStarted, .runFinished, .jobStarted, .jobCompleted, .cohesionMerge,
    .cohesionVeto, .waveStarted .pulse, .waveFinished .pulse, .waveStarted .conduct, .waveFinished .conduct,
    .vizPulse, .vizCustom]

/-! ## Handlers -/

/-- The arguments of the tools, as the handlers read them, and how a script that is run ends. -/
structure Kwargs where
  path : Option String := none
  content : Option String := none
  pathPrefix : Option String := none
  limit : Option ℕ := none
  code : Option String := none
  filename : Option String := none
  eventType : Option String := none
  type : Option String := none
  child : SandboxEnd := .succeeded

/-- The results of the tools. -/
inductive CityResult
  | refused (error : String)
  | wrote (artifact : Option WorkspaceArtifactModel)
  | found (artifact : WorkspaceArtifactModel)
  | notFound (path : String)
  | listed (paths : List (String × ℕ × ℕ))
  | ran (status : WorkspaceRunStatus) (filename : String) (files : List (String × String))
  | emitted (eventType : EventType)
deriving DecidableEq

/-- What a tool that writes or runs returns or raises. -/
def ToolAnswer.returned (wrote : Option WorkspaceArtifactModel) (filename : String) (files : List (String × String)) :
    ToolAnswer → Except String CityResult
  | .written => .ok (.wrote wrote)
  | .ran status => .ok (.ran status filename files)
  | .denied error => .ok (.refused error)
  | .raised error => .error error

/-- The rows a listing is asked for. -/
def Kwargs.listLimit (args : Kwargs) : ℕ := (args.limit.filter (· ≠ 0)).getD 200

/-- A listing is asked for the path. -/
def Kwargs.selects (args : Kwargs) (path : String) : Bool :=
  match args.pathPrefix.filter (· ≠ "") with
  | none => true
  | some pathPrefix =>
      let wanted :=
        match sanitizeWorkspacePath pathPrefix with
        | .ok rel => rel.toList
        | .error _ =>
            let slash := fun c => c = '/'
            ((Py.strip pathPrefix).toList.dropWhile slash).reverse.dropWhile slash |>.reverse
      wanted.isPrefixOf path.toList

/-- A round of the loop of `workspace_list`: the latest version of a path so far is kept. -/
def keepLatest (latest : List (String × WorkspaceArtifactModel)) (a : WorkspaceArtifactModel) :
    List (String × WorkspaceArtifactModel) :=
  match Py.getItem latest a.path with
  | some prev => if prev.version < a.version then Py.setItem latest a.path a else latest
  | none => Py.setItem latest a.path a

/-- The latest version of each path, as that loop collects them. -/
def latestByPath (arts : List WorkspaceArtifactModel) : List (String × WorkspaceArtifactModel) :=
  arts.foldl keepLatest []

/-- What a listing says of a path. -/
def WorkspaceArtifactModel.line (a : WorkspaceArtifactModel) : String × ℕ × ℕ := (a.path, a.version, a.sizeBytes)

/-- `workspace_list`. -/
def workspaceList (db : Commons) (id : JobId) (args : Kwargs) : Except String (List (String × ℕ × ℕ)) :=
  match db.getJob id with
  | none => .error "Job not found"
  | some _ =>
      let arts := (db.listArtifacts id args.listLimit).filter fun a => args.selects a.path
      let paths := Select.orderBy (·.path) ((latestByPath arts).map Prod.snd)
      .ok (paths.map (·.line))

/-- `emit_viz_event`. -/
def emitVizEvent (s : Session Commons) (id : JobId) (agentId : Option AgentId) (args : Kwargs) :
    Except String CityResult × Session Commons :=
  match s.working.getJob id with
  | none => (.error "Job not found", s)
  | some job =>
      let text := Py.orElse args.eventType (Py.orElse args.type "viz.pulse")
      match allowedVizEventTypes.find? (·.value = text) with
      | none => (.ok (.refused s!"event_type not allowed: {text}"), s)
      | some eventType =>
          (.ok (.emitted eventType),
            (emitEvent s { familyId := job.familyId, jobId := id, eventType, agentId }).commit)

section
variable (id : JobId) (agentId : Option AgentId)

/-- A handler of the commons tools. -/
abbrev CityHandler := Handler (Session Commons) Kwargs CityResult

def writeHandler : CityHandler := fun args s =>
  let r := workspaceWrite s id agentId (args.path.getD "") args.content
  (r.1.returned r.2.working.artifacts.getLast? "" [], r.2)

def readHandler : CityHandler := fun args s =>
  (do
    let artifact ← workspaceRead s.working id (args.path.getD "")
    let path ← sanitizeWorkspacePath (args.path.getD "")
    return artifact.elim (.notFound path) .found, s)

def listHandler : CityHandler := fun args s => ((workspaceList s.working id args).map .listed, s)

def pythonHandler : CityHandler := fun args s =>
  let run := runPython s id agentId { path := args.path, code := args.code, filename := args.filename } args.child
  (run.answer.returned none run.filename run.files, run.session)

def vizHandler : CityHandler := fun args s => emitVizEvent s id agentId args

/-- `register_city_tools`. -/
def registerCityTools (registry : ToolRegistry CityHandler) : ToolRegistry CityHandler :=
  ((((registry.register ⟨"workspace_write", writeHandler id agentId, false⟩).register
    ⟨"workspace_read", readHandler id, true⟩).register
    ⟨"workspace_list", listHandler id, true⟩).register
    ⟨"run_python", pythonHandler id agentId, false⟩).register
    ⟨"emit_viz_event", vizHandler id agentId, false⟩

/-- The tools `register_city_tools` registers. -/
def cityTools : List String :=
  ["workspace_write", "workspace_read", "workspace_list", "run_python", "emit_viz_event"]

/-- The paths a call writes a file under. -/
def writtenBy (call : Tools.Call Kwargs) : List String :=
  match call.name, sanitizeWorkspacePath (call.args.path.getD ""), call.args.content with
  | "workspace_write", .ok rel, some _ => [rel]
  | _, _, _ => []

end

/-! ## What is written -/

/-- The unique constraint on `workspace_artifacts`, for the rows of a job. -/
def Commons.UniqueVersions (db : Commons) (id : JobId) : Prop :=
  ((db.artifactsOf id).map fun a => (a.path, a.version)).Nodup

/-- What has happened to the files of a job when some paths have been written. -/
structure Grown (id : JobId) (db db' : Commons) (written : List String) : Prop where
  job : (db.getJob id).isSome → (db'.getJob id).isSome
  paths : (db'.artifactsOf id).map (·.path) = (db.artifactsOf id).map (·.path) ++ written
  same : ∀ path ∉ written, db'.getLatestByPath id path = db.getLatestByPath id path
  newer : ∀ path ∈ written, ∃ a, db'.getLatestByPath id path = some a ∧ db.latestVersion id path < a.version
  unique : db.UniqueVersions id → db'.UniqueVersions id

section
variable {id : JobId} {agentId : Option AgentId} {db db' : Commons} {s : Session Commons}
  {call : Tools.Call Kwargs}
  {a : WorkspaceArtifactModel} {path : String} {written : List String}

/-- No row of a path has a version above the latest. -/
theorem version_le_latestVersion (ha : a ∈ db.artifactsOf id) (hpath : a.path = path) :
    a.version ≤ db.latestVersion id path := by
  have hmem : a ∈ Select.orderByDesc (·.version) ((db.artifactsOf id).filter (·.path = path)) :=
    Select.mem_orderByDesc.mpr (List.mem_filter.mpr ⟨ha, decide_eq_true hpath⟩)
  have hp := Select.orderByDesc_pairwise (·.version) ((db.artifactsOf id).filter (·.path = path))
  unfold Commons.latestVersion Commons.getLatestByPath
  generalize Select.orderByDesc (·.version) ((db.artifactsOf id).filter (·.path = path)) = rows at *
  cases rows with
  | nil => cases hmem
  | cons b rest =>
      rcases List.mem_cons.mp hmem with rfl | hmem
      · exact le_rfl
      · exact (List.pairwise_cons.mp hp).1 a hmem

theorem grown_of_artifacts (hjob : db'.toStore = db.toStore) (hsame : db'.artifacts = db.artifacts) :
    Grown id db db' [] := by
  have hrows : db'.artifactsOf id = db.artifactsOf id := congrArg (List.filter _) hsame
  refine ⟨fun h => ?_, by rw [hrows, List.append_nil], fun path _ => ?_, fun path h => (nomatch h), fun h => ?_⟩
  · unfold Commons.getJob at h ⊢
    rwa [hjob]
  · unfold Commons.getLatestByPath
    rw [hrows]
  · unfold Commons.UniqueVersions at h ⊢
    rwa [hrows]

theorem Grown.refl (id : JobId) (db : Commons) : Grown id db db [] := grown_of_artifacts rfl rfl

/-- A latest version only grows. -/
theorem Grown.latestVersion_le (h : Grown id db db' written) (path : String) :
    db.latestVersion id path ≤ db'.latestVersion id path := by
  by_cases hpath : path ∈ written
  · obtain ⟨a, ha, hlt⟩ := h.newer path hpath
    have hversion : db'.latestVersion id path = a.version := by
      unfold Commons.latestVersion
      rw [ha]
      rfl
    exact hversion ▸ hlt.le
  · unfold Commons.latestVersion
    rw [h.same path hpath]

theorem Grown.trans {db'' : Commons} {written' : List String} (h : Grown id db db' written)
    (h' : Grown id db' db'' written') : Grown id db db'' (written ++ written') where
  job hjob := h'.job (h.job hjob)
  paths := by rw [h'.paths, h.paths, List.append_assoc]
  same path hpath := by
    rw [List.mem_append, not_or] at hpath
    rw [h'.same path hpath.2, h.same path hpath.1]
  newer path hpath := by
    by_cases hlast : path ∈ written'
    · obtain ⟨a, ha, hlt⟩ := h'.newer path hlast
      exact ⟨a, ha, lt_of_le_of_lt (h.latestVersion_le path) hlt⟩
    · rw [h'.same path hlast]
      exact h.newer path ((List.mem_append.mp hpath).resolve_right hlast)
  unique hunique := h'.unique (h.unique hunique)

/-- `record_artifact` adds one version to its path. -/
theorem grown_recordArtifact {job : CityJobModel} {content : Option String} :
    Grown job.id s.working (recordArtifact s job path content agentId).working [path] := by
  obtain ⟨row, hrows, hpath, hversion⟩ : ∃ row,
      (recordArtifact s job path content agentId).working.artifactsOf job.id =
        s.working.artifactsOf job.id ++ [row] ∧
        row.path = path ∧ row.version = s.working.latestVersion job.id path + 1 :=
    ⟨_, artifactsOf_recordArtifact, rfl, rfl⟩
  refine ⟨id, ?_, ?_, ?_, ?_⟩
  · rw [hrows, List.map_append, List.map_singleton, hpath]
  · intro other hother
    have hne : row.path ≠ other := fun heq => hother (List.mem_singleton.mpr (heq.symm.trans hpath))
    unfold Commons.getLatestByPath
    rw [hrows, List.filter_append]
    simp [hne]
  · intro path' hpath'
    obtain rfl := List.mem_singleton.mp hpath'
    refine ⟨row, ?_, hversion ▸ Nat.lt_succ_self _⟩
    unfold Commons.getLatestByPath
    rw [hrows]
    apply Select.head?_orderByDesc
    · exact List.mem_filter.mpr ⟨List.mem_append_right _ (List.mem_singleton_self _), decide_eq_true hpath⟩
    · intro b hb hne
      obtain ⟨hb, hbpath⟩ := List.mem_filter.mp hb
      rcases List.mem_append.mp hb with hb | hb
      · exact hversion ▸ Nat.lt_succ_of_le (version_le_latestVersion hb (of_decide_eq_true hbpath))
      · exact absurd (List.mem_singleton.mp hb) hne
  · intro hunique
    unfold Commons.UniqueVersions
    rw [hrows, List.map_append]
    apply hunique.append (List.nodup_singleton _)
    intro pair hpair hnew
    obtain rfl := List.mem_singleton.mp hnew
    obtain ⟨b, hb, heq⟩ := List.mem_map.mp hpair
    obtain ⟨hbpath, hbversion⟩ := Prod.mk.inj heq
    have hle := version_le_latestVersion hb (hbpath.trans hpath)
    omega

/-! ## What a call writes -/

theorem get_register {registry : ToolRegistry CityHandler} {spec : ToolSpec CityHandler} {name : String} :
    (registry.register spec).get name = if spec.name = name then some spec else registry.get name :=
  Py.getItem_setItem name

/-- The tools that are registered are those of the names, whatever was registered before. -/
theorem get_cityTools (id : JobId) (agentId : Option AgentId) (registry : ToolRegistry CityHandler) :
    (registerCityTools id agentId registry).get "workspace_write" =
        some ⟨"workspace_write", writeHandler id agentId, false⟩ ∧
      (registerCityTools id agentId registry).get "workspace_read" =
        some ⟨"workspace_read", readHandler id, true⟩ ∧
      (registerCityTools id agentId registry).get "workspace_list" =
        some ⟨"workspace_list", listHandler id, true⟩ ∧
      (registerCityTools id agentId registry).get "run_python" =
        some ⟨"run_python", pythonHandler id agentId, false⟩ ∧
      (registerCityTools id agentId registry).get "emit_viz_event" =
        some ⟨"emit_viz_event", vizHandler id agentId, false⟩ := by
  simp [registerCityTools, get_register]

theorem writeHandler_grown (hjob : (s.working.getJob id).isSome) (hname : call.name = "workspace_write") :
    Grown id s.working (writeHandler id agentId call.args s).2.working (writtenBy call) := by
  obtain ⟨job, hjob⟩ := Option.isSome_iff_exists.mp hjob
  have hid : job.id = id := Table.key_of_find? hjob
  subst hid
  show Grown job.id s.working (workspaceWrite s job.id agentId _ _).2.working _
  unfold workspaceWrite writtenBy
  rw [hjob, hname]
  dsimp only
  cases sanitizeWorkspacePath (call.args.path.getD "") with
  | error e => exact Grown.refl _ _
  | ok rel =>
      cases call.args.content with
      | none => exact Grown.refl _ _
      | some content => exact grown_recordArtifact

theorem writtenBy_other (hname : call.name ≠ "workspace_write") : writtenBy call = [] := by
  unfold writtenBy
  split
  · next h _ _ => exact absurd h hname
  · rfl

theorem pythonHandler_grown (hjob : (s.working.getJob id).isSome) (hname : call.name = "run_python") :
    Grown id s.working (pythonHandler id agentId call.args s).2.working (writtenBy call) := by
  obtain ⟨job, hjob⟩ := Option.isSome_iff_exists.mp hjob
  rw [writtenBy_other (hname ▸ by decide)]
  obtain ⟨rows, -, hrun⟩ := runPython_exit agentId
    { path := call.args.path, code := call.args.code, filename := call.args.filename } call.args.child hjob
  show Grown id s.working (runPython s id agentId _ _).session.working []
  rw [hrun]
  obtain ⟨hartifacts, hstore, -⟩ := recordRuns_working job agentId s rows
  exact grown_of_artifacts hstore hartifacts

theorem vizHandler_grown (hname : call.name = "emit_viz_event") :
    Grown id s.working (vizHandler id agentId call.args s).2.working (writtenBy call) := by
  rw [writtenBy_other (hname ▸ by decide)]
  show Grown id s.working (emitVizEvent s id agentId _).2.working []
  unfold emitVizEvent
  split
  · exact Grown.refl _ _
  · dsimp only
    split
    · exact Grown.refl _ _
    · exact grown_of_artifacts rfl rfl

/-- **What a call of a commons tool does to the files.** -/
theorem run_grown (agentId : Option AgentId) (registry : ToolRegistry CityHandler)
    (hjob : (s.working.getJob id).isSome)
    (hname : call.name ∈ cityTools) :
    Grown id s.working ((registerCityTools id agentId registry).run call s).2.working (writtenBy call) := by
  obtain ⟨hwrite, hread, hlist, hpython, hviz⟩ := get_cityTools id agentId registry
  unfold ToolRegistry.run
  simp only [cityTools, List.mem_cons, List.not_mem_nil, or_false] at hname
  rcases hname with hname | hname | hname | hname | hname
  · rw [hname, hwrite]
    exact writeHandler_grown hjob hname
  · rw [hname, hread, writtenBy_other (hname ▸ by decide)]
    exact Grown.refl _ _
  · rw [hname, hlist, writtenBy_other (hname ▸ by decide)]
    exact Grown.refl _ _
  · rw [hname, hpython]
    exact pythonHandler_grown hjob hname
  · rw [hname, hviz]
    exact vizHandler_grown hname

/-- **What some calls do to the files**: the paths they write grow by a version each, the others stay. -/
theorem after_grown (agentId : Option AgentId) (registry : ToolRegistry CityHandler)
    {calls : List (Tools.Call Kwargs)} (hjob : (s.working.getJob id).isSome)
    (hnames : ∀ call ∈ calls, call.name ∈ cityTools) :
    Grown id s.working ((registerCityTools id agentId registry).after calls s).working
      (calls.flatMap writtenBy) := by
  induction calls generalizing s with
  | nil => exact Grown.refl _ _
  | cons call calls ih =>
      have hcall := run_grown agentId registry hjob (hnames call List.mem_cons_self)
      exact hcall.trans (ih (hcall.job hjob) fun c hc => hnames c (List.mem_cons_of_mem _ hc))

end

end Persola.City
