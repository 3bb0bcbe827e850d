import Persola.City.Tools
import Persola.Lib.Table

/-!
# `City.Siblings` — the files a script finds beside it

The rows of a job are listed by path, and under a path from the newest version to the oldest. The loop of
`run_python` that collects the siblings assigns them to a dictionary in this order, so what it keeps of a path
is the oldest version listed, where `workspace_read` answers the newest.
-/

namespace Persola.City

open Runs
open Agent (AgentId)

/-! ## Versions -/

/-- Rows of a path are numbered in the order they are written; all have a content and a path in normal
    form. -/
structure Commons.Versioned (db : Commons) (id : JobId) : Prop where
  versions : (db.artifactsOf id).Pairwise fun a b => a.path = b.path → a.version < b.version
  content : ∀ a ∈ db.artifactsOf id, a.content.isSome
  normal : ∀ a ∈ db.artifactsOf id, NormalPath a.path

section
variable {db : Commons} {s t : Session Commons} {id : JobId} {a b : WorkspaceArtifactModel}
  {path : String}

/-- The rows of a path are in the order of their versions. -/
theorem Commons.Versioned.pairwise (h : db.Versioned id) (path : String) :
    ((db.artifactsOf id).filter (·.path = path)).Pairwise fun a b => a.version < b.version := by
  refine (h.versions.filter _).imp_of_mem fun ha hb hlt => hlt ?_
  exact (of_decide_eq_true (List.mem_filter.mp ha).2).trans (of_decide_eq_true (List.mem_filter.mp hb).2).symm

/-- `get_latest_by_path` answers the row of the path that was written last. -/
theorem Commons.Versioned.getLatestByPath (h : db.Versioned id) (path : String) :
    db.getLatestByPath id path = ((db.artifactsOf id).filter (·.path = path)).getLast? := by
  unfold Commons.getLatestByPath
  rw [Select.orderByDesc_eq_reverse (h.pairwise path), List.head?_reverse]

/-- The latest row of a path has the greatest version. -/
theorem Commons.Versioned.version_le (h : db.Versioned id) (hb : db.getLatestByPath id path = some b)
    (ha : a ∈ db.artifactsOf id) (hpath : a.path = path) : a.version ≤ b.version := by
  rw [h.getLatestByPath] at hb
  obtain ⟨init, hinit⟩ := List.getLast?_eq_some_iff.mp hb
  have hp := h.pairwise path
  have hmem : a ∈ (db.artifactsOf id).filter (·.path = path) := List.mem_filter.mpr ⟨ha, decide_eq_true hpath⟩
  rw [hinit] at hp hmem
  rcases List.mem_append.mp hmem with hold | hlast
  · exact ((List.pairwise_append.mp hp).2.2 a hold b (List.mem_singleton_self b)).le
  · rw [List.mem_singleton.mp hlast]

/-- A path that has a row has a latest one. -/
theorem Commons.Versioned.exists_latest (h : db.Versioned id) (ha : a ∈ db.artifactsOf id) :
    ∃ b, db.getLatestByPath id a.path = some b ∧ b ∈ db.artifactsOf id ∧ b.path = a.path := by
  have hmem : a ∈ (db.artifactsOf id).filter (·.path = a.path) := List.mem_filter.mpr ⟨ha, decide_eq_true rfl⟩
  obtain ⟨b, hb⟩ := List.getLast?_isSome.mpr (List.ne_nil_of_mem hmem) |> Option.isSome_iff_exists.mp
  obtain ⟨hbmem, hpath⟩ := List.mem_filter.mp (List.mem_of_getLast? hb)
  exact ⟨b, (h.getLatestByPath a.path).trans hb, hbmem, of_decide_eq_true hpath⟩

/-- Path and version name a row. -/
theorem Commons.Versioned.eq_of_version (h : db.Versioned id) (ha : a ∈ db.artifactsOf id)
    (hb : b ∈ db.artifactsOf id) (hpath : a.path = b.path) (hversion : a.version = b.version) : a = b := by
  obtain ⟨i, hi, rfl⟩ := List.mem_iff_getElem.mp ha
  obtain ⟨j, hj, rfl⟩ := List.mem_iff_getElem.mp hb
  have hpair := List.pairwise_iff_getElem.mp h.versions
  rcases Nat.lt_trichotomy i j with hij | rfl | hij
  · exact absurd hversion (hpair i j hi hj hij hpath).ne
  · rfl
  · exact absurd hversion.symm (hpair j i hj hi hij hpath.symm).ne

/-! ## Writing keeps the versions -/

theorem artifactsOf_recordArtifact {job : CityJobModel} {content : Option String} {agentId : Option AgentId} :
    (recordArtifact s job path content agentId).working.artifactsOf job.id = s.working.artifactsOf job.id ++
      [{ jobId := job.id, familyId := job.familyId, path, content
         sizeBytes := (content.getD "").utf8ByteSize
         version := s.working.latestVersion job.id path + 1, createdByAgentId := agentId }] := by
  show (s.working.artifacts ++ [_]).filter _ = _
  rw [List.filter_append]
  simp [Commons.artifactsOf]

/-- A new version is greater than all before it. -/
theorem versioned_recordArtifact {job : CityJobModel} {content : String} {agentId : Option AgentId}
    (h : s.working.Versioned job.id) (hpath : NormalPath path) :
    (recordArtifact s job path (some content) agentId).working.Versioned job.id := by
  refine ⟨?_, ?_, ?_⟩
  · rw [artifactsOf_recordArtifact, List.pairwise_append]
    refine ⟨h.versions, List.pairwise_singleton _ _, fun a ha b hb heq => ?_⟩
    obtain rfl := List.mem_singleton.mp hb
    have heq : a.path = path := heq
    obtain ⟨latest, hlatest, -, -⟩ := h.exists_latest ha
    rw [heq] at hlatest
    have hle := h.version_le hlatest ha heq
    show a.version < s.working.latestVersion job.id path + 1
    rw [Commons.latestVersion, hlatest]
    exact Nat.lt_succ_of_le hle
  · rw [artifactsOf_recordArtifact]
    intro a ha
    rcases List.mem_append.mp ha with hold | hnew
    · exact h.content a hold
    · rw [List.mem_singleton.mp hnew]
      rfl
  · rw [artifactsOf_recordArtifact]
    intro a ha
    rcases List.mem_append.mp ha with hold | hnew
    · exact h.normal a hold
    · rw [List.mem_singleton.mp hnew]
      exact hpath

/-- Rows that stay as they are stay versioned. -/
theorem Commons.Versioned.congr {db' : Commons} (h : db.Versioned id) (heq : db'.artifacts = db.artifacts) :
    db'.Versioned id := by
  have hsame : db'.artifactsOf id = db.artifactsOf id := congrArg (List.filter _) heq
  exact ⟨hsame ▸ h.versions, hsame ▸ h.content, hsame ▸ h.normal⟩

/-- The step condition that files are written under paths in normal form. -/
def WritesNormal (_ : Session Commons) (use : Option AgentId × ToolUse) : Prop :=
  ∀ path content, use.2 = .workspaceWrite path content → NormalPath path

/-- The job is there, and its artifacts are versioned. -/
structure Workable (id : JobId) (s : Session Commons) : Prop where
  job : (s.working.getJob id).isSome
  versioned : s.working.Versioned id

theorem workable_step {use : Option AgentId × ToolUse} (hs : Workable id s) (hC : WritesNormal s use)
    (h : (workshop id).step s use = some t) : Workable id t := by
  obtain ⟨agentId, tool⟩ := use
  obtain rfl := Option.some.inj h
  refine ⟨useTool_getJob agentId hs.job tool, ?_⟩
  obtain ⟨job, hjob⟩ := Option.isSome_iff_exists.mp hs.job
  have hid : job.id = id := Table.key_of_find? hjob
  subst hid
  cases tool with
  | workspaceWrite path content =>
      rcases workspaceWrite_cases agentId path content hjob with
        ⟨rel, text, hrel, hwrite⟩ | ⟨-, hwrite⟩
      · have hnormal : NormalPath path := hC path content rfl
        obtain rfl := Except.ok.inj (hnormal.symm.trans hrel)
        show (workspaceWrite s job.id agentId path content).2.working.Versioned job.id
        rw [hwrite]
        exact versioned_recordArtifact hs.versioned hnormal
      · show (workspaceWrite s job.id agentId path content).2.working.Versioned job.id
        rw [hwrite]
        exact hs.versioned
  | runPython args result =>
      obtain ⟨rows, -, hrun⟩ := runPython_exit agentId args result hjob
      show (runPython s job.id agentId args result).session.working.Versioned job.id
      rw [hrun]
      exact hs.versioned.congr (recordRuns_working job agentId s rows).1

theorem workable_of_reach (h : (workshop id).Reach WritesNormal s) : Workable id s := by
  refine h.invariant (I := Workable id) (fun s h₀ => ?_) fun _ _ _ hs hC hst => workable_step hs hC hst
  obtain ⟨hjob, hartifacts, -⟩ := h₀
  exact ⟨hjob, by simp [hartifacts], by simp [hartifacts], by simp [hartifacts]⟩

/-! ## What a script finds beside it -/

/-- The listed rows of a path come from the newest version to the oldest. -/
theorem listed_pairwise (path : String) : ((db.listArtifacts id 50).filter (·.path = path)).Pairwise
    fun a b => b.version ≤ a.version := by
  have hsorted := ((Select.orderBy_pairwise Commons.listing (db.artifactsOf id)).take (i := 50)).filter
    fun a => a.path = path
  refine hsorted.imp_of_mem fun {a b} ha hb hle => ?_
  have ha := of_decide_eq_true (List.mem_filter.mp ha).2
  have hb := of_decide_eq_true (List.mem_filter.mp hb).2
  rcases Prod.Lex.toLex_le_toLex.mp hle with hlt | ⟨-, hle⟩
  · have hlt : a.path < b.path := hlt
    rw [ha, hb] at hlt
    exact absurd hlt (lt_irrefl path)
  · exact hle

theorem mem_artifactsOf_of_listed (ha : a ∈ db.listArtifacts id 50) : a ∈ db.artifactsOf id :=
  Select.mem_orderBy.mp (List.mem_of_mem_take ha)

/-- Row `a` is the oldest version of its path among the rows a run lists, as far as these are small. -/
def Commons.OldestListed (db : Commons) (id : JobId) (a : WorkspaceArtifactModel) : Prop :=
  a ∈ db.listArtifacts id 50 ∧ a.small = true ∧
    ∀ b ∈ db.listArtifacts id 50, b.path = a.path → b.small = true → a.version ≤ b.version

/-- The rows of a path that the loop takes. -/
theorem filter_siblings {rows : List WorkspaceArtifactModel} {filename : String}
    (hrows : ∀ a ∈ rows, a.content.isSome) :
    ((rows.filterMap fun a => if a.path ≠ filename ∧ a.small then
        a.content.map fun content => (a.path, content) else none).filter (·.1 = path)).map Prod.snd =
      (rows.filter fun a => a.path = path ∧ path ≠ filename ∧ a.small).map (·.content.getD "") := by
  induction rows with
  | nil => rfl
  | cons a rows ih =>
      obtain ⟨text, htext⟩ := Option.isSome_iff_exists.mp (hrows a List.mem_cons_self)
      have ih := ih fun b hb => hrows b (List.mem_cons_of_mem a hb)
      by_cases htake : a.path ≠ filename ∧ a.small = true
      · rw [List.filterMap_cons, if_pos htake, htext, Option.map_some]
        by_cases hpath : a.path = path
        · rw [List.filter_cons, if_pos (decide_eq_true hpath), List.filter_cons,
            if_pos (decide_eq_true ⟨hpath, hpath ▸ htake.1, htake.2⟩), List.map_cons, List.map_cons, ih, htext]
          rfl
        · rw [List.filter_cons, if_neg (by simpa using hpath), List.filter_cons,
            if_neg fun h => hpath (of_decide_eq_true h).1, ih]
      · rw [List.filterMap_cons, if_neg htake, List.filter_cons, if_neg, ih]
        intro h
        obtain ⟨rfl, hne, hsmall⟩ := of_decide_eq_true h
        exact htake ⟨hne, hsmall⟩

/-- **The loop keeps the oldest version listed** of each path but the script's own. -/
theorem getItem_siblingFiles (h : db.Versioned id) {filename content : String} :
    Py.getItem (siblingFiles db id filename) path = some content ↔
      ∃ a, db.OldestListed id a ∧ a.path = path ∧ path ≠ filename ∧ a.content = some content := by
  let taken := (db.listArtifacts id 50).filter fun a => a.path = path ∧ path ≠ filename ∧ a.small
  have hmem : ∀ a, a ∈ taken ↔ a ∈ db.listArtifacts id 50 ∧ a.path = path ∧ path ≠ filename ∧ a.small = true :=
    fun a => by simp [taken, List.mem_filter]
  have hcontent : ∀ a ∈ db.listArtifacts id 50, a.content.isSome :=
    fun a ha => h.content a (mem_artifactsOf_of_listed ha)
  have hget : Py.getItem (siblingFiles db id filename) path = taken.getLast?.map (·.content.getD "") := by
    unfold siblingFiles
    rw [Py.getItem_assign, ← List.getLast?_map, filter_siblings hcontent, List.getLast?_map]
    exact Option.or_none
  -- the last of them is the oldest
  have holdest : ∀ a, taken.getLast? = some a → ∀ b ∈ taken, a.version ≤ b.version := by
    intro a ha b hb
    have hp : taken.Pairwise fun a b => b.version ≤ a.version := by
      have hsub : taken.Sublist ((db.listArtifacts id 50).filter (·.path = path)) :=
        List.monotone_filter_right _ fun a hcond => decide_eq_true (of_decide_eq_true hcond).1
      exact (listed_pairwise path).sublist hsub
    obtain ⟨init, hinit⟩ := List.getLast?_eq_some_iff.mp ha
    rw [hinit] at hp hb
    rcases List.mem_append.mp hb with hold | hlast
    · exact (List.pairwise_append.mp hp).2.2 b hold a (List.mem_singleton_self a)
    · rw [List.mem_singleton.mp hlast]
  rw [hget, Option.map_eq_some_iff]
  constructor
  · rintro ⟨a, ha, rfl⟩
    obtain ⟨hlisted, rfl, hne, hsmall⟩ := (hmem a).mp (List.mem_of_getLast? ha)
    refine ⟨a, ⟨hlisted, hsmall, fun b hb hpath hb' => ?_⟩, rfl, hne, ?_⟩
    · exact holdest a ha b ((hmem b).mpr ⟨hb, hpath, hne, hb'⟩)
    · obtain ⟨text, htext⟩ := Option.isSome_iff_exists.mp (hcontent a hlisted)
      rw [htext]
      rfl
  · rintro ⟨a, ⟨hlisted, hsmall, hleast⟩, rfl, hne, htext⟩
    have hmema : a ∈ taken := (hmem a).mpr ⟨hlisted, rfl, hne, hsmall⟩
    cases hlast : taken.getLast? with
    | none => exact absurd hmema (by rw [List.getLast?_eq_none_iff.mp hlast]; exact List.not_mem_nil)
    | some b =>
        obtain ⟨hb, hpath, -, hbsmall⟩ := (hmem b).mp (List.mem_of_getLast? hlast)
        have hle := holdest b hlast a hmema
        obtain rfl := h.eq_of_version (mem_artifactsOf_of_listed hlisted) (mem_artifactsOf_of_listed hb)
          hpath.symm (Nat.le_antisymm (hleast b hb hpath hbsmall) hle)
        exact ⟨a, rfl, by rw [htext]; rfl⟩

/-- A run that took place found the siblings in its directory. -/
theorem runPython_files {agentId : Option AgentId} {args : RunArgs} {result : SandboxEnd}
    {status : WorkspaceRunStatus} (h : (runPython s id agentId args result).answer = .ran status) :
    ∃ source, sandboxFiles source (runPython s id agentId args result).filename
        (siblingFiles s.working id (runPython s id agentId args result).filename) =
      .ok (runPython s id agentId args result).files := by
  unfold runPython at h ⊢
  cases hjob : s.working.getJob id with
  | none => rw [hjob] at h; cases h
  | some job =>
      rw [hjob] at h
      cases htarget : runTarget s.working id args with
      | invalid e | noArgument | noArtifact => simp only [htarget] at h; cases h
      | source source filename =>
          have hsame : siblingFiles (recordRun job agentId s .running).working id filename =
              siblingFiles s.working id filename := rfl
          cases hfiles : sandboxFiles source filename (siblingFiles s.working id filename) with
          | error e => simp only [htarget, hsame, hfiles] at h; cases h
          | ok files =>
              cases result with
              | raised e => simp only [htarget, hsame, hfiles] at h; cases h
              | succeeded | failed | timeout =>
                  simp only [hsame, hfiles]
                  exact ⟨source, hfiles⟩

theorem siblingFiles_nodup {filename : String} : ((siblingFiles db id filename).map Prod.fst).Nodup :=
  Py.keys_assign List.nodup_nil

/-- The paths of the siblings are those of the job's artifacts. -/
theorem siblingFiles_normal (h : db.Versioned id) {filename : String} :
    ∀ file ∈ siblingFiles db id filename, NormalPath file.1 := by
  intro file hfile
  have hget : Py.getItem (siblingFiles db id filename) file.1 = some file.2 :=
    Py.getItem_of_mem siblingFiles_nodup hfile
  obtain ⟨a, ⟨hlisted, -⟩, hpath, -⟩ := (getItem_siblingFiles h).mp hget
  exact hpath ▸ h.normal a (mem_artifactsOf_of_listed hlisted)

/-- What a script finds under another path than its own. -/
theorem getItem_files (h : db.Versioned id) {source filename : String} {files : List (String × String)}
    (hname : NormalPath filename) (hne : path ≠ filename)
    (hfiles : sandboxFiles source filename (siblingFiles db id filename) = .ok files) :
    Py.getItem files path = Py.getItem (siblingFiles db id filename) path := by
  rw [sandboxFiles_normal hname (siblingFiles_normal h)] at hfiles
  obtain rfl := Except.ok.inj hfiles
  rw [Py.getItem_assign, Py.getLast?_filter_key siblingFiles_nodup, Py.getItem_cons,
    if_neg hne.symm]
  exact Option.or_none

/-- For every sibling the oldest version listed has the content of the newest version there is. -/
def Commons.OldestCurrent (db : Commons) (id : JobId) (filename : String) : Prop :=
  ∀ a, db.OldestListed id a → a.path ≠ filename →
    ∀ newest ∈ db.artifactsOf id, newest.path = a.path →
      (∀ b ∈ db.artifactsOf id, b.path = a.path → b.version ≤ newest.version) → newest.content = a.content

end

/-- **The siblings of a run are current exactly if for each of them the oldest version listed has the content
    of the newest version.** No file rewritten with another content is enough. -/
theorem siblings_current_iff {id : JobId} {s : Session Commons} {agentId : Option AgentId} {args : RunArgs}
    {result : SandboxEnd} {status : WorkspaceRunStatus} (h : (workshop id).Reach WritesNormal s)
    (hran : (runPython s id agentId args result).answer = .ran status)
    (hname : NormalPath (runPython s id agentId args result).filename) :
    ((∀ path content, path ≠ (runPython s id agentId args result).filename →
        Py.getItem (runPython s id agentId args result).files path = some content →
        ∃ a, workspaceRead s.working id path = .ok (some a) ∧ a.content = some content) ↔
      s.working.OldestCurrent id (runPython s id agentId args result).filename) ∧
    ((∀ a ∈ s.working.artifactsOf id, ∀ b ∈ s.working.artifactsOf id, a.path = b.path → a.content = b.content) →
      s.working.OldestCurrent id (runPython s id agentId args result).filename) := by
  obtain ⟨hjob, hv⟩ := workable_of_reach h
  obtain ⟨job, hjob⟩ := Option.isSome_iff_exists.mp hjob
  obtain ⟨source, hfiles⟩ := runPython_files hran
  generalize (runPython s id agentId args result).filename = filename at *
  generalize (runPython s id agentId args result).files = files at *
  -- what `workspace_read` answers for the path of a row
  have hread : ∀ a ∈ s.working.artifactsOf id,
      workspaceRead s.working id a.path = .ok (s.working.getLatestByPath id a.path) := by
    intro a ha
    have hnormal : sanitizeWorkspacePath a.path = .ok a.path := hv.normal a ha
    unfold workspaceRead
    rw [hjob]
    dsimp only
    rw [hnormal]
    rfl
  refine ⟨⟨fun hall a hold hne newest hnewest hpath hgreatest => ?_, fun hcurrent path content hne hget => ?_⟩,
    fun hsame a hold _ newest hnewest hpath _ => ?_⟩
  · have ha := mem_artifactsOf_of_listed hold.1
    obtain ⟨text, htext⟩ := Option.isSome_iff_exists.mp (hv.content a ha)
    have hget : Py.getItem files a.path = some text := by
      rw [getItem_files hv hname hne hfiles]
      exact (getItem_siblingFiles hv).mpr ⟨a, hold, rfl, hne, htext⟩
    obtain ⟨latest, hlatest, hcontent⟩ := hall a.path text hne hget
    rw [hread a ha] at hlatest
    have hlatest := Except.ok.inj hlatest
    obtain ⟨latest', hlatest', hmem, hlpath⟩ := hv.exists_latest ha
    obtain rfl := Option.some.inj (hlatest.symm.trans hlatest')
    obtain rfl := hv.eq_of_version hnewest hmem (hpath.trans hlpath.symm)
      (Nat.le_antisymm (hv.version_le hlatest hnewest hpath) (hgreatest latest hmem hlpath))
    rw [hcontent, htext]
  · rw [getItem_files hv hname hne hfiles] at hget
    obtain ⟨a, hold, rfl, -, htext⟩ := (getItem_siblingFiles hv).mp hget
    have ha := mem_artifactsOf_of_listed hold.1
    obtain ⟨latest, hlatest, hmem, hpath⟩ := hv.exists_latest ha
    refine ⟨latest, (hread a ha).trans (by rw [hlatest]), ?_⟩
    rw [hcurrent a hold hne latest hmem hpath fun b hb hbpath => hv.version_le hlatest hb hbpath, htext]
  · exact hsame newest hnewest a (mem_artifactsOf_of_listed hold.1) hpath

/-- A job that nobody has worked on. -/
def freshJob : Commons where
  families := []
  members := []
  agents := []
  personas := []
  jobs := [{ id := 1, familyId := 0, district := .build, status := .running, createdAt := 0 }]
  fresh := 2
  artifacts := []
  runs := []
  events := []

/-- Versions of one file, written one after the other. -/
def writeUtil (texts : List String) : List (Option AgentId × ToolUse) :=
  texts.map fun text => (none, .workspaceWrite "util.py" (some text))

/-- A script of one line. -/
def printOne : RunArgs := { code := some "print(1)" }

theorem reach_writeUtil {texts : List String} {s : Session Commons}
    (h : (workshop 1).exec (Session.start freshJob) (writeUtil texts) = some s) :
    (workshop 1).Reach WritesNormal s := by
  refine ⟨_, ⟨rfl, rfl, rfl⟩, System.run_of_meets h (System.meets_of_forall ?_ _)⟩
  intro use huse s path content heq
  obtain ⟨text, -, rfl⟩ := List.mem_map.mp huse
  obtain ⟨rfl, -⟩ := ToolUse.workspaceWrite.inj heq
  show sanitizeWorkspacePath "util.py" = .ok "util.py"
  decide +kernel

/-- A file that was written once is found as `workspace_read` answers it. -/
theorem siblings_current_once : ∃ s, (workshop 1).exec (Session.start freshJob) (writeUtil ["x = 1"]) = some s ∧
    ∀ content, Py.getItem (runPython s 1 none printOne .succeeded).files "util.py" = some content →
      ∃ a, workspaceRead s.working 1 "util.py" = .ok (some a) ∧ a.content = some content := by
  have hex : ((workshop 1).exec (Session.start freshJob) (writeUtil ["x = 1"])).any (fun s =>
      (runPython s 1 none printOne .succeeded).answer = .ran .succeeded &&
        (runPython s 1 none printOne .succeeded).filename = "main.py" &&
        (s.working.artifactsOf 1).length = 1) = true := by decide +kernel
  obtain ⟨s, hrun, hp⟩ := System.exists_of_exec hex
  simp only [Bool.and_eq_true, decide_eq_true_eq] at hp
  obtain ⟨⟨hran, hname⟩, hone⟩ := hp
  have hnormal : NormalPath (runPython s 1 none printOne .succeeded).filename := by
    rw [hname]
    show sanitizeWorkspacePath "main.py" = .ok "main.py"
    decide +kernel
  obtain ⟨hiff, hsame⟩ := siblings_current_iff (reach_writeUtil hrun) hran hnormal
  refine ⟨s, hrun, fun content hget => hiff.mpr (hsame ?_) "util.py" content (by rw [hname]; decide) hget⟩
  obtain ⟨a, ha⟩ := List.length_eq_one_iff.mp hone
  rw [ha]
  intro b hb c hc _
  rw [List.mem_singleton.mp hb, List.mem_singleton.mp hc]

/-- **A file that was rewritten is found in its first version.** -/
theorem rewritten_sibling_stale : ∃ s, (workshop 1).Reach WritesNormal s ∧
    (runPython s 1 none printOne .succeeded).answer = .ran .succeeded ∧
    Py.getItem (runPython s 1 none printOne .succeeded).files "util.py" = some "x = 1" ∧
    ∃ a, workspaceRead s.working 1 "util.py" = .ok (some a) ∧ a.content = some "x = 2" := by
  have hex : ((workshop 1).exec (Session.start freshJob) (writeUtil ["x = 1", "x = 2"])).any (fun s =>
      (runPython s 1 none printOne .succeeded).answer = .ran .succeeded &&
        Py.getItem (runPython s 1 none printOne .succeeded).files "util.py" = some "x = 1" &&
        ((workspaceRead s.working 1 "util.py").toOption.join.bind (·.content)) = some "x = 2") = true := by
    decide +kernel
  obtain ⟨s, hrun, hp⟩ := System.exists_of_exec hex
  simp only [Bool.and_eq_true, decide_eq_true_eq] at hp
  obtain ⟨⟨hran, hfound⟩, hread⟩ := hp
  refine ⟨s, reach_writeUtil hrun, hran, hfound, ?_⟩
  obtain ⟨a, ha, hcontent⟩ := Option.bind_eq_some_iff.mp hread
  refine ⟨a, ?_, hcontent⟩
  cases hr : workspaceRead s.working 1 "util.py" with
  | error e => simp [hr, Except.toOption] at ha
  | ok found =>
      rw [hr] at ha
      exact congrArg Except.ok ha

end Persola.City
