import Persola.City.Tools
import Persola.Lib.Optimistic
import Persola.Lib.Table

/-!
# `City.Versioning` — writers of artifacts, each in a transaction of its own

`record_artifact` reads the job and the latest version of the path, inserts the version after it, logs the
event and commits. Here every statement is a step, and the steps of any number of calls interleave. A read
sees the committed rows; `uq_workspace_artifact_path_version` turns away an insert whose version a committed
or a pending row has. (Where the database lets such an insert wait for the other transaction to end, the
insert is the later step.) Run alone, a call is `recordArtifact` (`alone_recordArtifact`). The mirror on disk
is not modelled.
-/

namespace Persola.City

open Runs
open Agent (AgentId)

/-- The arguments of `record_artifact`. -/
structure RecordArtifact where
  jobId : JobId
  path : String
  content : Option String
  createdByAgentId : Option AgentId := none

/-- The row that is inserted. -/
def RecordArtifact.row (req : RecordArtifact) (job : CityJobModel) (version : ℕ) : WorkspaceArtifactModel where
  jobId := req.jobId
  familyId := job.familyId
  path := req.path
  content := req.content
  sizeBytes := (req.content.getD "").utf8ByteSize
  version := version
  createdByAgentId := req.createdByAgentId

/-- The `artifact.written` event of a row. -/
def WorkspaceArtifactModel.written (row : WorkspaceArtifactModel) : CityEventModel where
  familyId := row.familyId
  jobId := row.jobId
  eventType := .artifactWritten
  agentId := row.createdByAgentId
  artifact := some (row.path, row.version)

/-- What is unique together with the version. -/
def WorkspaceArtifactModel.place (row : WorkspaceArtifactModel) : JobId × String := (row.jobId, row.path)

/-- How far a call has come. -/
inductive WriteStage
  | opened
  | found (job : CityJobModel)
  | read (job : CityJobModel) (latest : ℕ)
  | inserted (row : WorkspaceArtifactModel)
  | logged (row : WorkspaceArtifactModel)
  | committed (row : WorkspaceArtifactModel)
  | failed

/-- The call has returned or raised. -/
def WriteStage.over : WriteStage → Bool
  | .committed _ | .failed => true
  | _ => false

/-- The row that was inserted in a transaction that is still open. -/
def WriteStage.pending : WriteStage → Option WorkspaceArtifactModel
  | .inserted row | .logged row => some row
  | _ => none

/-- A call of `record_artifact`. -/
structure WriteCall where
  req : RecordArtifact
  stage : WriteStage

/-- A call that has committed, and the row it wrote. -/
structure Commit where
  call : ℕ
  req : RecordArtifact
  row : WorkspaceArtifactModel

/-- The committed rows, the calls, and which of them committed in which order. -/
structure Writers where
  db : Commons
  calls : List WriteCall
  commits : List Commit

namespace Writers

/-- What a call has pending. -/
def pending (w : Writers) (i : ℕ) : Option WorkspaceArtifactModel := w.calls[i]?.bind (·.stage.pending)

/-- The commits on a path of a job. -/
def commitsOn (w : Writers) (id : JobId) (path : String) : List Commit :=
  w.commits.filter fun c => c.req.jobId = id ∧ c.req.path = path

/-- The row violates the unique constraint. -/
def violates (w : Writers) (row : WorkspaceArtifactModel) : Bool :=
  w.db.artifacts.any (fun a => a.place = row.place ∧ a.version = row.version) ||
    w.calls.any fun c => c.stage.pending.any fun a => a.place = row.place ∧ a.version = row.version

/-- A call moves on and changes nothing that is committed. -/
def move (w : Writers) (i : ℕ) (c : WriteCall) (stage : WriteStage) : Writers :=
  { w with calls := w.calls.set i { c with stage } }

/-- The commit of a call: its row and its event. -/
def commit (w : Writers) (i : ℕ) (c : WriteCall) (row : WorkspaceArtifactModel) : Writers where
  db := { w.db with artifacts := w.db.artifacts ++ [row], events := w.db.events ++ [row.written] }
  calls := w.calls.set i { c with stage := .committed row }
  commits := w.commits ++ [⟨i, c.req, row⟩]

/-- The next statement of a call of `record_artifact`. -/
def advance (w : Writers) (i : ℕ) (c : WriteCall) : Option Writers :=
  match c.stage with
  | .opened =>
      match w.db.getJob c.req.jobId with
      | none => some (w.move i c .failed)
      | some job => some (w.move i c (.found job))
  | .found job => some (w.move i c (.read job (w.db.latestVersion c.req.jobId c.req.path)))
  | .read job latest =>
      if w.violates (c.req.row job (latest + 1)) then some (w.move i c .failed)
      else some (w.move i c (.inserted (c.req.row job (latest + 1))))
  | .inserted row => some (w.move i c (.logged row))
  | .logged row => some (w.commit i c row)
  | .committed _ | .failed => none

end Writers

/-- What happens next. -/
inductive WriteAction
  | call (req : RecordArtifact)
  | advance (i : ℕ)
  /-- The call breaks off, for whatever reason, and its transaction is rolled back. -/
  | abort (i : ℕ)
  /-- Work on jobs, by other calls. -/
  | work (jobs : List CityJobModel)

/-- **The writers**, from when no artifact has been written. -/
def writers : Runs.System Writers WriteAction where
  init w := w.db.artifacts = [] ∧ w.calls = [] ∧ w.commits = []
  step w
    | .call req => some { w with calls := w.calls ++ [⟨req, .opened⟩] }
    | .advance i => w.calls[i]?.bind (w.advance i)
    | .abort i => w.calls[i]?.bind fun c => if c.stage.over then none else some (w.move i c .failed)
    | .work jobs => some { w with db := { w.db with jobs } }

section
variable {w w' w₀ : Writers} {i : ℕ} {c : WriteCall} {stage : WriteStage} {row : WorkspaceArtifactModel}

namespace Writers

/-! ## What a step can do -/

/-- The steps of a call that commit nothing. -/
inductive Moves (w : Writers) (c : WriteCall) : WriteStage → Prop
  | found {job : CityJobModel} (h : c.stage = .opened) (hjob : w.db.getJob c.req.jobId = some job) :
      Moves w c (.found job)
  | read {job : CityJobModel} (h : c.stage = .found job) :
      Moves w c (.read job (w.db.latestVersion c.req.jobId c.req.path))
  | inserted {job : CityJobModel} {latest : ℕ} (h : c.stage = .read job latest)
      (hfree : w.violates (c.req.row job (latest + 1)) = false) :
      Moves w c (.inserted (c.req.row job (latest + 1)))
  | logged {row : WorkspaceArtifactModel} (h : c.stage = .inserted row) : Moves w c (.logged row)
  | failed (h : c.stage.over = false) : Moves w c .failed

/-- **What a step can do**: open a call, move one on without committing anything, commit one, or leave calls
and artifacts alone. -/
theorem step_cases {a : WriteAction} (h : writers.step w a = some w') :
    (∃ req, w' = { w with calls := w.calls ++ [⟨req, .opened⟩] }) ∨
      (∃ i c stage, w.calls[i]? = some c ∧ w.Moves c stage ∧ w' = w.move i c stage) ∨
      (∃ i c row, w.calls[i]? = some c ∧ c.stage = .logged row ∧ w' = w.commit i c row) ∨
      ∃ jobs, a = .work jobs ∧ w' = { w with db := { w.db with jobs } } := by
  cases a with
  | call req => exact .inl ⟨req, (Option.some.inj h).symm⟩
  | work jobs => exact .inr (.inr (.inr ⟨jobs, rfl, (Option.some.inj h).symm⟩))
  | abort i =>
      obtain ⟨c, hc, h⟩ := Option.bind_eq_some_iff.mp h
      split at h
      · cases h
      · next hover =>
          refine .inr (.inl ⟨i, c, .failed, hc, .failed ?_, (Option.some.inj h).symm⟩)
          rwa [Bool.not_eq_true] at hover
  | advance i =>
      obtain ⟨c, hc, h⟩ := Option.bind_eq_some_iff.mp h
      unfold advance at h
      split at h
      · next hstage =>
          split at h
          · refine .inr (.inl ⟨i, c, _, hc, .failed ?_, (Option.some.inj h).symm⟩)
            rw [hstage]
            rfl
          · next job hjob => exact .inr (.inl ⟨i, c, _, hc, .found hstage hjob, (Option.some.inj h).symm⟩)
      · next job hstage => exact .inr (.inl ⟨i, c, _, hc, .read hstage, (Option.some.inj h).symm⟩)
      · next job latest hstage =>
          split at h
          · refine .inr (.inl ⟨i, c, _, hc, .failed ?_, (Option.some.inj h).symm⟩)
            rw [hstage]
            rfl
          · next hfree =>
              rw [Bool.not_eq_true] at hfree
              exact .inr (.inl ⟨i, c, _, hc, .inserted hstage hfree, (Option.some.inj h).symm⟩)
      · next row hstage => exact .inr (.inl ⟨i, c, _, hc, .logged hstage, (Option.some.inj h).symm⟩)
      · next row hstage => exact .inr (.inr (.inl ⟨i, c, row, hc, hstage, (Option.some.inj h).symm⟩))
      · cases h
      · cases h

/-! ## Pending rows -/

theorem lookup_set {calls : List WriteCall} {c' : WriteCall} (hi : calls[i]? = some c) (j : ℕ) :
    (calls.set i c')[j]? = if j = i then some c' else calls[j]? := by
  rw [List.getElem?_set]
  by_cases hj : i = j
  · subst hj
    have hlt : i < calls.length := (List.getElem?_eq_some_iff.mp hi).1
    rw [if_pos rfl, if_pos hlt, if_pos rfl]
  · rw [if_neg hj, if_neg fun heq => hj heq.symm]

theorem pending_set_self {c' : WriteCall} (hi : w.calls[i]? = some c)
    (hcalls : w'.calls = w.calls.set i c') : w'.pending i = c'.stage.pending := by
  unfold pending
  rw [hcalls, lookup_set hi, if_pos rfl]
  rfl

theorem pending_set_ne {c' : WriteCall} (hi : w.calls[i]? = some c) (hcalls : w'.calls = w.calls.set i c')
    {j : ℕ} (hj : j ≠ i) : w'.pending j = w.pending j := by
  unfold pending
  rw [hcalls, lookup_set hi, if_neg hj]

/-- A call that is opened has nothing pending. -/
theorem pending_opened (req : RecordArtifact) (j : ℕ) :
    ({ w with calls := w.calls ++ [⟨req, .opened⟩] } : Writers).pending j = w.pending j := by
  unfold pending
  show (w.calls ++ [_])[j]?.bind _ = _
  rcases Nat.lt_or_ge j w.calls.length with hlt | hge
  · rw [List.getElem?_append_left hlt]
  · rw [List.getElem?_append_right hge, List.getElem?_eq_none hge]
    rcases Nat.eq_zero_or_pos (j - w.calls.length) with hzero | hpos
    · rw [hzero]
      rfl
    · rw [List.getElem?_eq_none (show [_].length ≤ j - w.calls.length from hpos)]

/-- The check of the unique constraint. -/
theorem violates_iff : w.violates row ↔
    Optimistic.Taken WorkspaceArtifactModel.place (·.version) w.db.artifacts w.pending row := by
  unfold violates Optimistic.Taken
  rw [Bool.or_eq_true]
  refine or_congr ?_ ?_
  · simp only [List.any_eq_true, decide_eq_true_eq]
  · simp only [List.any_eq_true, Option.any_eq_true, decide_eq_true_eq, pending, Option.bind_eq_some_iff]
    constructor
    · rintro ⟨c, hc, a, ha, hsame⟩
      obtain ⟨i, hi⟩ := List.getElem?_of_mem hc
      exact ⟨i, a, ⟨c, hi, ha⟩, hsame⟩
    · rintro ⟨i, a, ⟨c, hi, ha⟩, hsame⟩
      exact ⟨c, List.mem_of_getElem? hi, a, ha, hsame⟩

/-! ## The invariant -/

/-- The row is what the call was to write. -/
structure Wrote (req : RecordArtifact) (row : WorkspaceArtifactModel) : Prop where
  place : row.place = (req.jobId, req.path)
  content : row.content = req.content

/-- What a call has read and written so far. -/
def StageOk (w : Writers) (c : WriteCall) : Prop :=
  match c.stage with
  | .read _ latest => latest ≤ (Optimistic.rowsOf (·.place) w.db.artifacts (c.req.jobId, c.req.path)).length
  | .inserted row | .logged row | .committed row => Wrote c.req row
  | .opened | .found _ | .failed => True

/-- **The invariant.** -/
structure Inv (w₀ w : Writers) : Prop where
  numbering : Optimistic.Inv WorkspaceArtifactModel.place (·.version) w.db.artifacts w.pending
  stages : ∀ (i : ℕ) (c : WriteCall), w.calls[i]? = some c → w.StageOk c
  rows : w.db.artifacts = w.commits.map (·.row)
  events : w.db.events = w₀.db.events ++ w.commits.map (·.row.written)
  wrote : ∀ c ∈ w.commits, Wrote c.req c.row
  committed : ∀ c ∈ w.commits, w.calls[c.call]? = some ⟨c.req, .committed c.row⟩
  complete : ∀ (i : ℕ) req row, w.calls[i]? = some ⟨req, .committed row⟩ → ⟨i, req, row⟩ ∈ w.commits
  once : (w.commits.map (·.call)).Nodup

/-- The rows of a path, and what the queries for the latest of them return. -/
theorem versions_eq {db : Commons} {id : JobId} {path : String} :
    (db.artifactsOf id).filter (·.path = path) =
      Optimistic.rowsOf WorkspaceArtifactModel.place db.artifacts (id, path) := by
  unfold Commons.artifactsOf Optimistic.rowsOf
  rw [List.filter_filter]
  refine List.filter_congr fun a _ => ?_
  simp [WorkspaceArtifactModel.place, Bool.and_comm]

theorem getLatestByPath_eq {db : Commons} {id : JobId} {path : String}
    (h : Numbered (·.version) (Optimistic.rowsOf WorkspaceArtifactModel.place db.artifacts (id, path))) :
    db.getLatestByPath id path =
      (Optimistic.rowsOf WorkspaceArtifactModel.place db.artifacts (id, path)).getLast? := by
  unfold Commons.getLatestByPath
  rw [versions_eq, h.head?_orderByDesc]

theorem latestVersion_eq {db : Commons} {id : JobId} {path : String}
    (h : Numbered (·.version) (Optimistic.rowsOf WorkspaceArtifactModel.place db.artifacts (id, path))) :
    db.latestVersion id path =
      (Optimistic.rowsOf WorkspaceArtifactModel.place db.artifacts (id, path)).length := by
  unfold Commons.latestVersion
  rw [getLatestByPath_eq h, h.num_getLast?]

theorem inv_init (h : writers.init w) : Inv w w := by
  obtain ⟨hartifacts, hcalls, hcommits⟩ := h
  have hnone : ∀ i, w.pending i = none := by
    intro i
    unfold pending
    rw [hcalls]
    rfl
  refine ⟨hartifacts ▸ Optimistic.Inv.nil hnone, ?_, ?_, ?_, ?_, ?_, ?_, ?_⟩
  · simp [hcalls]
  · rw [hartifacts, hcommits]
    rfl
  · rw [hcommits]
    exact (List.append_nil _).symm
  · simp [hcommits]
  · simp [hcommits]
  · simp [hcalls]
  · simp [hcommits]

/-! ## A call is opened -/

theorem inv_open (h : Inv w₀ w) (req : RecordArtifact) :
    Inv w₀ { w with calls := w.calls ++ [⟨req, .opened⟩] } := by
  have hcases : ∀ (j : ℕ) (c : WriteCall), (w.calls ++ [⟨req, .opened⟩])[j]? = some c →
      w.calls[j]? = some c ∨ c = ⟨req, .opened⟩ := by
    intro j c hj
    rcases Nat.lt_or_ge j w.calls.length with hlt | hge
    · rw [List.getElem?_append_left hlt] at hj
      exact .inl hj
    · rw [List.getElem?_append_right hge] at hj
      exact .inr (List.mem_singleton.mp (List.mem_of_getElem? hj))
  refine ⟨h.numbering.congr (pending_opened req), ?_, h.rows, h.events, h.wrote, ?_, ?_, h.once⟩
  · intro j c hj
    rcases hcases j c hj with hold | rfl
    · exact h.stages j c hold
    · trivial
  · intro c hc
    have hold := h.committed c hc
    exact (List.getElem?_append_left (List.getElem?_eq_some_iff.mp hold).1).trans hold
  · intro j req' row hj
    rcases hcases j _ hj with hold | hnew
    · exact h.complete j req' row hold
    · cases hnew

/-! ## A call moves on -/

theorem Moves.not_over (h : w.Moves c stage) : c.stage.over = false := by
  cases h with
  | found h | read h | inserted h | logged h =>
      rw [h]
      rfl
  | failed h => exact h

/-- A call that moves on stays in order. -/
theorem Moves.stageOk (h : w.Moves c stage) (hinv : Inv w₀ w) (hok : w.StageOk c) :
    w.StageOk { c with stage } := by
  cases h with
  | found | failed => trivial
  | read h => exact (latestVersion_eq (hinv.numbering.numbered _)).le
  | inserted h => exact ⟨rfl, rfl⟩
  | logged h =>
      unfold StageOk at hok
      rw [h] at hok
      exact hok

theorem Moves.numbering (h : w.Moves c stage) (hinv : Inv w₀ w) (hi : w.calls[i]? = some c) :
    Optimistic.Inv WorkspaceArtifactModel.place (·.version) w.db.artifacts (w.move i c stage).pending := by
  have hcalls : (w.move i c stage).calls = w.calls.set i { c with stage } := rfl
  have hself : (w.move i c stage).pending i = stage.pending := pending_set_self hi hcalls
  have hothers : ∀ j ≠ i, (w.move i c stage).pending j = w.pending j :=
    fun j hj => pending_set_ne hi rfl hj
  cases h with
  | found | read | failed => exact hinv.numbering.rollback hself hothers
  | inserted h hfree =>
      have hok := hinv.stages i c hi
      unfold StageOk at hok
      rw [h] at hok
      refine hinv.numbering.insert hok rfl (fun htaken => ?_) hself hothers
      rw [violates_iff.mpr htaken] at hfree
      cases hfree
  | logged h =>
      refine hinv.numbering.congr fun j => ?_
      by_cases hj : j = i
      · subst hj
        rw [hself]
        unfold pending
        rw [hi, Option.bind_some, h]
        rfl
      · exact hothers j hj

theorem inv_move (h : Inv w₀ w) (hi : w.calls[i]? = some c) (hm : w.Moves c stage) :
    Inv w₀ (w.move i c stage) := by
  have hlookup : ∀ j, (w.move i c stage).calls[j]? = if j = i then some { c with stage } else w.calls[j]? :=
    fun j => lookup_set hi j
  refine ⟨hm.numbering h hi, ?_, h.rows, h.events, h.wrote, ?_, ?_, h.once⟩
  · intro j c' hj
    rw [hlookup] at hj
    split at hj
    · obtain rfl := Option.some.inj hj
      exact hm.stageOk h (h.stages i c hi)
    · exact h.stages j c' hj
  · intro c' hc'
    have hold := h.committed c' hc'
    rw [hlookup, if_neg, hold]
    rintro heq
    rw [heq, hi] at hold
    obtain rfl := Option.some.inj hold
    exact absurd hm.not_over (by simp [WriteStage.over])
  · intro j req row hj
    rw [hlookup] at hj
    split at hj
    · cases hm <;> cases hj
    · exact h.complete j req row hj

/-! ## A call commits -/

/-- What others commit does not spoil what a call has read. -/
theorem StageOk.mono (hok : w.StageOk c) {k : WorkspaceArtifactModel} (hdb : w'.db.artifacts = w.db.artifacts ++ [k]) :
    w'.StageOk c := by
  unfold StageOk at hok ⊢
  cases hstage : c.stage with
  | read job latest =>
      rw [hstage] at hok
      rw [hdb]
      exact le_trans hok (Optimistic.length_rowsOf_snoc _ _ _)
  | inserted row | logged row | committed row =>
      rw [hstage] at hok
      exact hok
  | opened | found job | failed => trivial

theorem inv_commit (h : Inv w₀ w) (hi : w.calls[i]? = some c) (hstage : c.stage = .logged row) :
    Inv w₀ (w.commit i c row) := by
  have hlookup : ∀ j, (w.commit i c row).calls[j]? =
      if j = i then some { c with stage := .committed row } else w.calls[j]? := fun j => lookup_set hi j
  have hwrote : Wrote c.req row := by
    have hok := h.stages i c hi
    unfold StageOk at hok
    rwa [hstage] at hok
  have hnew : ∀ c' ∈ w.commits, c'.call ≠ i := by
    intro c' hc' heq
    have hold := h.committed c' hc'
    rw [heq, hi] at hold
    obtain rfl := Option.some.inj hold
    cases hstage
  have hpending : w.pending i = some row := by
    unfold pending
    rw [hi, Option.bind_some, hstage]
    rfl
  have hcalls : (w.commit i c row).calls = w.calls.set i { c with stage := .committed row } := rfl
  have hself : (w.commit i c row).pending i = none := pending_set_self hi hcalls
  refine ⟨?_, ?_, ?_, ?_, ?_, ?_, ?_, ?_⟩
  · exact h.numbering.commit hpending hself fun j hj => pending_set_ne hi rfl hj
  · intro j c' hj
    rw [hlookup] at hj
    split at hj
    · obtain rfl := Option.some.inj hj
      exact hwrote
    · exact (h.stages j c' hj).mono rfl
  · show w.db.artifacts ++ [row] = (w.commits ++ [_]).map _
    rw [List.map_append, h.rows]
    rfl
  · show w.db.events ++ [row.written] = w₀.db.events ++ (w.commits ++ [_]).map _
    rw [List.map_append, h.events, List.append_assoc]
    rfl
  · intro c' hc'
    rcases List.mem_append.mp hc' with hold | hlast
    · exact h.wrote c' hold
    · rw [List.mem_singleton.mp hlast]
      exact hwrote
  · intro c' hc'
    rcases List.mem_append.mp hc' with hold | hlast
    · rw [hlookup, if_neg (hnew c' hold)]
      exact h.committed c' hold
    · rw [List.mem_singleton.mp hlast, hlookup, if_pos rfl]
  · intro j req row' hj
    rw [hlookup] at hj
    split at hj
    · next heq =>
        subst heq
        cases hj
        exact List.mem_append_right _ (List.mem_singleton_self _)
    · exact List.mem_append_left _ (h.complete j req row' hj)
  · show ((w.commits ++ [_]).map _).Nodup
    rw [List.map_append, List.nodup_append]
    refine ⟨h.once, List.nodup_singleton _, ?_⟩
    intro k hk k' hk' heq
    obtain ⟨c', hc', rfl⟩ := List.mem_map.mp hk
    exact hnew c' hc' (heq.trans (List.mem_singleton.mp hk'))

/-- **Every step keeps the invariant.** -/
theorem inv_step {a : WriteAction} (h : Inv w₀ w) (hstep : writers.step w a = some w') : Inv w₀ w' := by
  rcases step_cases hstep with ⟨req, rfl⟩ | ⟨i, c, stage, hi, hm, rfl⟩ | ⟨i, c, row, hi, hstage, rfl⟩ |
    ⟨jobs, -, rfl⟩
  · exact inv_open h req
  · exact inv_move h hi hm
  · exact inv_commit h hi hstage
  · exact ⟨h.numbering, h.stages, h.rows, h.events, h.wrote, h.committed, h.complete, h.once⟩

/-! ## Alone -/

theorem step_advance (hi : w.calls[i]? = some c) : writers.step w (.advance i) = w.advance i c := by
  show w.calls[i]?.bind (w.advance i) = _
  rw [hi]
  rfl

theorem lookup_move (hi : w.calls[i]? = some c) :
    (w.move i c stage).calls[i]? = some { c with stage } := by
  show (w.calls.set i { c with stage })[i]? = _
  rw [lookup_set hi, if_pos rfl]

/-- With nothing pending the version after the latest is free. -/
theorem not_violates (h : Inv w₀ w) (hquiet : ∀ i, w.pending i = none) (req : RecordArtifact)
    (job : CityJobModel) :
    w.violates (req.row job (w.db.latestVersion req.jobId req.path + 1)) = false := by
  rw [← Bool.not_eq_true, violates_iff]
  rintro (⟨a, ha, hplace, hversion⟩ | ⟨i, a, hi, -⟩)
  · have hnumbered := h.numbering.numbered (req.jobId, req.path)
    have hversion : a.version = w.db.latestVersion req.jobId req.path + 1 := hversion
    have hle := (hnumbered.mem_range (Optimistic.mem_rowsOf.mpr ⟨ha, hplace⟩)).2
    rw [latestVersion_eq hnumbered] at hversion
    omega
  · rw [hquiet i] at hi
    cases hi

/-- **A call that runs alone** is `recordArtifact`. -/
theorem alone_recordArtifact (h : Inv w₀ w) (hquiet : ∀ i, w.pending i = none) {req : RecordArtifact}
    {job : CityJobModel} (hjob : w.db.getJob req.jobId = some job) :
    ∃ w', writers.exec w (.call req :: List.replicate 5 (.advance w.calls.length)) = some w' ∧
      w'.db = (recordArtifact (Session.start w.db) job req.path req.content req.createdByAgentId).committed := by
  let row := req.row job (w.db.latestVersion req.jobId req.path + 1)
  let w₁ : Writers := { w with calls := w.calls ++ [⟨req, .opened⟩] }
  let w₂ := w₁.move w.calls.length ⟨req, .opened⟩ (.found job)
  let w₃ := w₂.move w.calls.length ⟨req, .found job⟩ (.read job (w.db.latestVersion req.jobId req.path))
  let w₄ := w₃.move w.calls.length ⟨req, .read job (w.db.latestVersion req.jobId req.path)⟩ (.inserted row)
  let w₅ := w₄.move w.calls.length ⟨req, .inserted row⟩ (.logged row)
  have hc₁ : w₁.calls[w.calls.length]? = some ⟨req, .opened⟩ := List.getElem?_concat_length
  have hc₂ : w₂.calls[w.calls.length]? = some ⟨req, .found job⟩ := lookup_move hc₁
  have hc₃ : w₃.calls[w.calls.length]? =
      some ⟨req, .read job (w.db.latestVersion req.jobId req.path)⟩ := lookup_move hc₂
  have hc₄ : w₄.calls[w.calls.length]? = some ⟨req, .inserted row⟩ := lookup_move hc₃
  have hc₅ : w₅.calls[w.calls.length]? = some ⟨req, .logged row⟩ := lookup_move hc₄
  have hfree : w₃.violates row = false := by
    have hinv₁ : Inv w₀ w₁ := inv_open h req
    have hinv₂ : Inv w₀ w₂ := inv_move hinv₁ hc₁ (.found rfl hjob)
    have hinv₃ : Inv w₀ w₃ := inv_move hinv₂ hc₂ (.read rfl)
    refine not_violates hinv₃ (fun i => ?_) req job
    by_cases hi : i = w.calls.length
    · rw [hi]
      unfold pending
      rw [hc₃]
      rfl
    · rw [pending_set_ne hc₂ rfl hi, pending_set_ne hc₁ rfl hi]
      exact (pending_opened req i).trans (hquiet i)
  have hstep₁ : writers.step w (.call req) = some w₁ := rfl
  have hstep₂ : writers.step w₁ (.advance w.calls.length) = some w₂ := by
    rw [step_advance hc₁]
    show (match w.db.getJob req.jobId with | none => _ | some job => _) = _
    rw [hjob]
  have hstep₃ : writers.step w₂ (.advance w.calls.length) = some w₃ := step_advance hc₂
  have hstep₄ : writers.step w₃ (.advance w.calls.length) = some w₄ := by
    rw [step_advance hc₃]
    exact if_neg (Bool.eq_false_iff.mp hfree)
  have hstep₅ : writers.step w₄ (.advance w.calls.length) = some w₅ := step_advance hc₄
  have hstep₆ := step_advance hc₅
  refine ⟨w₅.commit w.calls.length ⟨req, .logged row⟩ row, ?_, ?_⟩
  · rw [System.exec_cons hstep₁]
    show writers.exec w₁ [.advance _, .advance _, .advance _, .advance _, .advance _] = _
    rw [System.exec_cons hstep₂, System.exec_cons hstep₃, System.exec_cons hstep₄, System.exec_cons hstep₅,
      System.exec_cons hstep₆]
    rfl
  · have hid : job.id = req.jobId := Table.key_of_find? hjob
    unfold recordArtifact
    rw [hid]
    rfl

/-! ## Every interleaving -/

/-- What the committed state shows of the calls. -/
structure Consistent (w₀ w : Writers) : Prop where
  versions : ∀ id path, ((w.db.artifactsOf id).filter (·.path = path)).map (·.version) =
    List.range' 1 ((w.db.artifactsOf id).filter (·.path = path)).length
  rows : w.db.artifacts = w.commits.map (·.row)
  events : w.db.events = w₀.db.events ++ w.commits.map (·.row.written)
  committed : ∀ c ∈ w.commits, w.calls[c.call]? = some ⟨c.req, .committed c.row⟩
  complete : ∀ (i : ℕ) req row, w.calls[i]? = some ⟨req, .committed row⟩ → ⟨i, req, row⟩ ∈ w.commits
  once : (w.commits.map (·.call)).Nodup
  failed : ∀ (i : ℕ) req, w.calls[i]? = some ⟨req, .failed⟩ → ∀ c ∈ w.commits, c.call ≠ i
  nth : ∀ id path n c, (w.commitsOn id path)[n]? = some c →
    c.row.version = n + 1 ∧ c.row.place = (id, path) ∧ c.row.content = c.req.content
  latest : ∀ id path, w.db.getLatestByPath id path = (w.commitsOn id path).getLast?.map (·.row)
  read : ∀ id path rel, (w.db.getJob id).isSome → sanitizeWorkspacePath path = .ok rel →
    workspaceRead w.db id path = .ok ((w.commitsOn id rel).getLast?.map (·.row))

/-- The rows of a path are those of the commits on it. -/
theorem Inv.rowsOf_eq (h : Inv w₀ w) (id : JobId) (path : String) :
    Optimistic.rowsOf WorkspaceArtifactModel.place w.db.artifacts (id, path) =
      (w.commitsOn id path).map (·.row) := by
  unfold Optimistic.rowsOf commitsOn
  rw [h.rows, List.filter_map]
  refine congrArg _ (List.filter_congr fun c hc => ?_)
  show decide (c.row.place = (id, path)) = _
  rw [(h.wrote c hc).place]
  exact decide_eq_decide.mpr Prod.mk_inj

theorem Inv.consistent (h : Inv w₀ w) : Consistent w₀ w where
  versions := by
    intro id path
    rw [versions_eq]
    exact h.numbering.numbered (id, path)
  rows := h.rows
  events := h.events
  committed := h.committed
  complete := h.complete
  once := h.once
  failed := by
    intro i req hi c hc heq
    have hcommitted := h.committed c hc
    rw [heq, hi] at hcommitted
    cases hcommitted
  nth := by
    intro id path n c hn
    obtain ⟨hlt, hget⟩ := List.getElem?_eq_some_iff.mp hn
    obtain ⟨hmem, hon⟩ := List.mem_filter.mp (hget ▸ List.getElem_mem hlt)
    obtain ⟨rfl, rfl⟩ := of_decide_eq_true hon
    have hwrote := h.wrote c hmem
    have hnumbered := h.numbering.numbered (c.req.jobId, c.req.path)
    rw [h.rowsOf_eq] at hnumbered
    have hnum := hnumbered.num_getElem (show n < _ by rwa [List.length_map])
    rw [List.getElem_map, hget] at hnum
    exact ⟨hnum, hwrote.place, hwrote.content⟩
  latest := by
    intro id path
    rw [getLatestByPath_eq (h.numbering.numbered _), h.rowsOf_eq, List.getLast?_map]
  read := by
    intro id path rel hjob hrel
    obtain ⟨job, hjob⟩ := Option.isSome_iff_exists.mp hjob
    unfold workspaceRead
    rw [hjob]
    dsimp only
    rw [hrel]
    show Except.ok (w.db.getLatestByPath id rel) = _
    rw [getLatestByPath_eq (h.numbering.numbered _), h.rowsOf_eq, List.getLast?_map]

/-- A step that commits no call changes nothing, work on jobs apart. -/
theorem step_uncommitted {a : WriteAction} (hstep : writers.step w a = some w') (ha : ∀ jobs, a ≠ .work jobs)
    (hcommits : w'.commits = w.commits) : w'.db = w.db := by
  rcases step_cases hstep with ⟨req, rfl⟩ | ⟨i, c, stage, -, -, rfl⟩ | ⟨i, c, row, -, -, rfl⟩ |
    ⟨jobs, rfl, -⟩
  · rfl
  · rfl
  · exact absurd (congrArg List.length hcommits) (by simp [commit])
  · exact absurd rfl (ha jobs)

/-- **Versions under concurrency**: for every interleaving of any number of calls, in every state, the
versions of each path are `1, …, n` in the order of the commits, the committed rows and events are those of
the calls that committed and of no other, and readers get what was committed last; and a step without a
commit, a failure among them, changes nothing. -/
theorem artifacts_consistent (h₀ : writers.init w₀) (h : writers.Run always w₀ w) :
    Consistent w₀ w ∧ ∀ a w', writers.step w a = some w' → (∀ jobs, a ≠ .work jobs) →
      w'.commits = w.commits → w'.db = w.db := by
  have hinv : Inv w₀ w := h.invariant (I := Inv w₀) (fun _ _ _ hI _ hstep => inv_step hI hstep) (inv_init h₀)
  exact ⟨hinv.consistent, fun a w' hstep ha hcommits => step_uncommitted hstep ha hcommits⟩

end Writers

end

/-- A job, and nobody writing yet. -/
def quietJob : Writers where
  db :=
    { families := [], members := [], agents := [], personas := [], fresh := 2
      jobs := [{ id := 1, familyId := 0, district := .build, status := .running, createdAt := 0 }]
      artifacts := [], runs := [], events := [] }
  calls := []
  commits := []

/-- Two calls read the same latest version; one of them is turned away, and a third call comes after. -/
def twoWriters : List WriteAction :=
  [.call ⟨1, "a.py", some "x = 1", none⟩, .call ⟨1, "a.py", some "x = 2", none⟩,
   .advance 0, .advance 1, .advance 0, .advance 1, .advance 1, .advance 0, .advance 1, .advance 1,
   .call ⟨1, "a.py", some "x = 3", none⟩,
   .advance 2, .advance 2, .advance 2, .advance 2, .advance 2]

/-- After both commits. -/
theorem consistent_twoWriters : ∃ w, writers.exec quietJob twoWriters = some w ∧
    w.commits.map (·.call) = [1, 2] ∧ w.db.artifacts.map (·.version) = [1, 2] ∧
    Writers.Consistent quietJob w ∧ ∀ a w', writers.step w a = some w' → (∀ jobs, a ≠ .work jobs) →
      w'.commits = w.commits → w'.db = w.db := by
  have hex : (writers.exec quietJob twoWriters).any (fun w =>
      decide (w.commits.map (·.call) = [1, 2] ∧ w.db.artifacts.map (·.version) = [1, 2])) = true := by
    decide +kernel
  obtain ⟨w, hrun, hend⟩ := System.exists_of_exec hex
  obtain ⟨hcommits, hversions⟩ := of_decide_eq_true hend
  exact ⟨w, hrun, hcommits, hversions,
    Writers.artifacts_consistent ⟨rfl, rfl, rfl⟩ (System.run_of_exec hrun)⟩

end Persola.City
