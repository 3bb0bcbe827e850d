import Persola.City.Ancestry
import Persola.City.Tools
import Persola.Lib.Table
import Mathlib.Tactic.FieldSimp
import Mathlib.Tactic.Linarith

/-!
# `City.Cohesion` — the success rate of the cohesion score

The score blends two quotients, both rounded to four digits for the answer only; all of it is stated for any rounding
of float operations. The rate of successful tool runs counts rows, and a run that comes to its end has left two of
them: the one that says it is running, which is never changed, and the one with its outcome.
-/

namespace Persola.City

open Runs
open Agent (AgentId)

/-! ## The quotients -/

namespace Commons

/-- `member_agents`: the agents of all members there ever were. -/
def memberAgents (db : Commons) (id : FamilyId) : List AgentId := ((db.membersOf id).map (·.agentId)).dedup

/-- The agent wrote one of the artifacts or started one of the runs that the queries return. -/
def Participates (db : Commons) (id : JobId) (a : AgentId) : Prop :=
  (∃ artifact ∈ db.listArtifacts id 1000, artifact.createdByAgentId = some a) ∨
    ∃ run ∈ db.listRuns id 1000, run.startedByAgentId = some a

instance (db : Commons) (id : JobId) (a : AgentId) : Decidable (db.Participates id a) :=
  inferInstanceAs (Decidable (_ ∨ _))

/-- `participation`, as an exact quotient. -/
def participation (db : Commons) (family : FamilyId) (id : JobId) : ℚ :=
  if db.memberAgents family = [] then 0
  else (db.memberAgents family).countP (db.Participates id ·) / (db.memberAgents family).length

/-- `success_rate`, as an exact quotient. -/
def successRate (db : Commons) (id : JobId) : ℚ :=
  if db.listRuns id 1000 = [] then 0
  else (db.listRuns id 1000).countP (·.status = .succeeded) / (db.listRuns id 1000).length

theorem participation_range (db : Commons) (family : FamilyId) (id : JobId) :
    0 ≤ db.participation family id ∧ db.participation family id ≤ 1 := by
  unfold participation
  split
  · exact ⟨le_rfl, zero_le_one⟩
  · refine ⟨by positivity, div_le_one_of_le₀ ?_ (Nat.cast_nonneg _)⟩
    exact_mod_cast List.countP_le_length

section
variable {r : Rounding} {db : Commons} {id : JobId} {job : CityJobModel} {score : CohesionScore}

/-- **`cohesion_score`** in terms of the two quotients. -/
theorem cohesionScore_eq (hjob : db.getJob id = some job) (h : cohesionScore r db id = some score) :
    score.participation = r.round 4 (r.fl (db.participation job.familyId id)) ∧
      score.toolSuccessRate = r.round 4 (r.fl (db.successRate id)) ∧
      score.score = r.round 4 (r.add (r.mul (r.fl (6/10)) (r.fl (db.participation job.familyId id)))
        (r.mul (r.fl (4/10)) (r.fl (db.successRate id)))) := by
  have hcount : ((db.memberAgents job.familyId).filter fun a =>
      a ∈ (db.listArtifacts id 1000).filterMap (·.createdByAgentId) ∨
        a ∈ (db.listRuns id 1000).filterMap (·.startedByAgentId)).length =
      (db.memberAgents job.familyId).countP (db.Participates id ·) := by
    rw [← List.countP_eq_length_filter]
    refine List.countP_congr fun a _ => ?_
    rw [decide_eq_true_iff, decide_eq_true_iff, List.mem_filterMap, List.mem_filterMap]
    exact Iff.rfl
  have hparticipation : (if db.memberAgents job.familyId = [] then (0 : ℚ)
      else r.div ((db.memberAgents job.familyId).filter fun a =>
        a ∈ (db.listArtifacts id 1000).filterMap (·.createdByAgentId) ∨
          a ∈ (db.listRuns id 1000).filterMap (·.startedByAgentId)).length
        (db.memberAgents job.familyId).length) = r.fl (db.participation job.familyId id) := by
    rw [hcount, participation, apply_ite r.fl, r.fl_zero]
    rfl
  have hsuccess : (if db.listRuns id 1000 = [] then (0 : ℚ)
      else r.div ((db.listRuns id 1000).countP (·.status = .succeeded)) (db.listRuns id 1000).length) =
        r.fl (db.successRate id) := by
    rw [successRate, apply_ite r.fl, r.fl_zero]
    rfl
  unfold cohesionScore at h
  rw [hjob] at h
  rw [← Option.some.inj h]
  refine ⟨congrArg (r.round 4) hparticipation, congrArg (r.round 4) hsuccess, ?_⟩
  exact congrArg₂ (fun p q => r.round 4 (r.add (r.mul (r.fl (6/10)) p) (r.mul (r.fl (4/10)) q))) hparticipation
    hsuccess

/-- One success in 64 rows, and nobody took part: in exact arithmetic the score ends with a two. -/
example : Rounding.binary64.round 4 (Rounding.binary64.mul (Binary64.fl (4/10)) (1/64)) = Binary64.fl (63/10000) ∧
    Rounding.exact.round 4 (Rounding.exact.mul (4/10) (1/64)) = 62/10000 := by
  decide +kernel

end

/-- As long as there are no more than 1000 runs, the query returns them all. -/
theorem successRate_eq {db : Commons} {id : JobId} (h : (db.runsOf id).length ≤ 1000) :
    db.successRate id = (db.runsOf id).countP (·.status = .succeeded) / (db.runsOf id).length := by
  have hall : db.listRuns id 1000 = (db.runsOf id).reverse :=
    List.take_of_length_le (by rw [List.length_reverse]; exact h)
  unfold successRate
  rw [hall, List.countP_reverse, List.length_reverse]
  split
  · next hnil =>
      rw [List.reverse_eq_nil_iff.mp hnil]
      simp
  · rfl

end Commons

/-! ## Invocations -/

/-- A call of `run_python`: its answer and how many rows it left. -/
structure Invocation where
  answer : ToolAnswer
  rows : ℕ
deriving DecidableEq, Repr

/-- What a call of `run_python` on the session `s` comes to. -/
def invocation (id : JobId) (s : Session Commons) (run : PythonRun) : Invocation where
  answer := run.answer
  rows := (run.session.working.runsOf id).length - (s.working.runsOf id).length

/-- The calls of `run_python` in a sequence of calls. -/
def invocations (id : JobId) : Session Commons → List (Option AgentId × ToolUse) → List Invocation
  | _, [] => []
  | s, (agentId, .workspaceWrite path content) :: uses =>
      invocations id (workspaceWrite s id agentId path content).2 uses
  | s, (agentId, .runPython args result) :: uses =>
      let run := runPython s id agentId args result
      invocation id s run :: invocations id run.session uses

/-- The invocation succeeded. -/
def Invocation.succeeded (i : Invocation) : Bool := i.answer.ok

/-- The invocation left a row. -/
def Invocation.recorded (i : Invocation) : Bool := 0 < i.rows

/-- The invocation left a second row: its script ran, or was turned away by the sandbox. -/
def Invocation.ended (i : Invocation) : Bool := 1 < i.rows

/-- The rows of an exit, in numbers. -/
theorem RunExit.counts {answer : ToolAnswer} {rows : List WorkspaceRunStatus} (h : RunExit answer rows) :
    rows.length = (if 0 < rows.length then 1 else 0) + (if 1 < rows.length then 1 else 0) ∧
      rows.countP (· = .succeeded) = (if answer.ok then 1 else 0) ∧ (answer.ok = true → 1 < rows.length) := by
  cases h with
  | unrecorded h => simp [h]
  | noArtifact | broken | rejected => simp [ToolAnswer.ok]
  | ended hstatus =>
      rcases List.mem_cons.mp hstatus with rfl | hstatus
      · simp [ToolAnswer.ok]
      · rcases List.mem_cons.mp hstatus with rfl | hstatus
        · simp [ToolAnswer.ok]
        · rw [List.mem_singleton.mp hstatus]
          simp [ToolAnswer.ok]

section
variable {s t : Session Commons} {id : JobId} {uses : List (Option AgentId × ToolUse)}

/-- The rows a call adds to the runs of its job. -/
theorem runsOf_recordRuns (job : CityJobModel) (agentId : Option AgentId) (s : Session Commons)
    (rows : List WorkspaceRunStatus) :
    (rows.foldl (recordRun job agentId) s).working.runsOf job.id =
      s.working.runsOf job.id ++ rows.map fun status => ⟨job.id, status, agentId⟩ := by
  obtain ⟨-, -, hruns⟩ := recordRuns_working job agentId s rows
  unfold Commons.runsOf
  rw [hruns, List.filter_append]
  refine congrArg (_ ++ ·) (List.filter_eq_self.mpr fun run hrun => ?_)
  obtain ⟨status, -, rfl⟩ := List.mem_map.mp hrun
  exact decide_eq_true rfl

/-- **Step lemma**: the rows an invocation leaves, by what it was. -/
theorem runPython_rows (agentId : Option AgentId) (args : RunArgs) (result : SandboxEnd)
    (hjob : (s.working.getJob id).isSome) :
    let run := runPython s id agentId args result
    let i := invocation id s run
    (run.session.working.runsOf id).length = (s.working.runsOf id).length +
        ((if i.recorded then 1 else 0) + if i.ended then 1 else 0) ∧
      (run.session.working.runsOf id).countP (·.status = .succeeded) =
        (s.working.runsOf id).countP (·.status = .succeeded) + (if i.succeeded then 1 else 0) ∧
      (i.succeeded = true → i.ended = true) := by
  intro run i
  obtain ⟨job, hj⟩ := Option.isSome_iff_exists.mp hjob
  have hid : job.id = id := Table.key_of_find? hj
  subst hid
  obtain ⟨rows, hexit, hrun⟩ := runPython_exit agentId args result hj
  have hruns := runsOf_recordRuns job agentId s rows
  rw [← hrun] at hruns
  obtain ⟨hlength, hcount, hended⟩ := hexit.counts
  have hi : i = ⟨run.answer, rows.length⟩ := by
    show (⟨_, _ - _⟩ : Invocation) = _
    rw [hruns, List.length_append, List.length_map, Nat.add_sub_cancel_left]
  have hsucceeded : (rows.map fun status => (⟨job.id, status, agentId⟩ : WorkspaceRunModel)).countP
      (·.status = .succeeded) = rows.countP (· = .succeeded) := by
    rw [List.countP_map]
    rfl
  rw [hi]
  refine ⟨?_, ?_, ?_⟩
  · rw [hruns, List.length_append, List.length_map]
    simp only [Invocation.recorded, Invocation.ended, decide_eq_true_eq]
    rw [← hlength]
  · rw [hruns, List.countP_append, hsucceeded, hcount]
    rfl
  · intro hok
    exact decide_eq_true (hended hok)

/-- **The rows of a job in terms of its invocations**: one for each that was recorded and one more for each
    that came to its end; those with success are the invocations with success. -/
theorem runsOf_invocations (hjob : (s.working.getJob id).isSome) (h : (workshop id).exec s uses = some t) :
    (t.working.runsOf id).length = (s.working.runsOf id).length +
        ((invocations id s uses).countP Invocation.recorded +
          (invocations id s uses).countP Invocation.ended) ∧
      (t.working.runsOf id).countP (·.status = .succeeded) =
        (s.working.runsOf id).countP (·.status = .succeeded) +
          (invocations id s uses).countP Invocation.succeeded ∧
      ∀ i ∈ invocations id s uses, i.succeeded = true → i.ended = true := by
  induction uses generalizing s with
  | nil =>
      obtain rfl := Option.some.inj h
      simp [invocations]
  | cons use uses ih =>
      obtain ⟨agentId, tool⟩ := use
      have hrest := ih (useTool_getJob agentId hjob tool) h
      cases tool with
      | workspaceWrite path content =>
          have hruns : (workspaceWrite s id agentId path content).2.working.runsOf id = s.working.runsOf id :=
            congrArg (List.filter _) workspaceWrite_frame.2
          rw [useTool] at hrest
          rw [invocations, ← hruns]
          exact hrest
      | runPython args result =>
          rw [useTool] at hrest
          dsimp only at hrest
          obtain ⟨ihlength, ihcount, ihended⟩ := hrest
          obtain ⟨hlength, hcount, hended⟩ := runPython_rows agentId args result hjob
          rw [invocations, List.countP_cons, List.countP_cons, List.countP_cons]
          refine ⟨?_, ?_, ?_⟩
          · omega
          · omega
          · intro i hi
            rcases List.mem_cons.mp hi with rfl | hi
            · exact hended
            · exact ihended i hi

end

/-! ## The rate -/

/-- The invocations of a sequence of calls, counted. -/
structure Tally where
  succeeded : ℕ
  recorded : ℕ
  ended : ℕ

/-- The tally of a sequence of calls. -/
def tally (id : JobId) (s : Session Commons) (uses : List (Option AgentId × ToolUse)) : Tally where
  succeeded := (invocations id s uses).countP Invocation.succeeded
  recorded := (invocations id s uses).countP Invocation.recorded
  ended := (invocations id s uses).countP Invocation.ended

/-- The rate the rows give is the rate of the invocations only where nothing succeeded: a success has ended, so
    its two rows weigh in the denominator. -/
theorem rate_eq_iff {succeeded recorded ended : ℕ} (hsucceeded : succeeded ≤ ended)
    (hended : ended ≤ recorded) :
    (succeeded : ℚ) / (recorded + ended : ℕ) = succeeded / recorded ↔ succeeded = 0 := by
  constructor
  · intro h
    by_contra hne
    have hrecorded : (0 : ℚ) < recorded := by
      exact_mod_cast (show 0 < recorded by omega)
    have hmore : (recorded : ℚ) < (recorded + ended : ℕ) := by
      exact_mod_cast (show recorded < recorded + ended by omega)
    have hsome : (0 : ℚ) < succeeded := by
      exact_mod_cast Nat.pos_of_ne_zero hne
    exact (div_lt_div_of_pos_left hsome hrecorded hmore).ne h
  · rintro rfl
    simp

/-- Rounding to four digits hides the difference from the rate of the invocations for a few successes only. -/
theorem succeeded_lt_ten {r : Rounding} {succeeded recorded ended : ℕ} (hsucceeded : succeeded ≤ ended)
    (hended : ended ≤ recorded) (hrows : recorded + ended ≤ 1000)
    (h : r.round 4 (r.div succeeded (recorded + ended : ℕ)) = r.round 4 (r.div succeeded recorded)) :
    succeeded < 10 := by
  by_contra hmany
  have hrecorded : (10 : ℚ) ≤ recorded := by
    exact_mod_cast (show 10 ≤ recorded by omega)
  have hsum : (recorded : ℚ) + ended ≤ 1000 := by
    exact_mod_cast hrows
  have hten : (10 : ℚ) ≤ succeeded := by
    exact_mod_cast not_lt.mp hmany
  have hten' : (succeeded : ℚ) ≤ ended := by
    exact_mod_cast hsucceeded
  have hle : succeeded ≤ recorded := hsucceeded.trans hended
  have hshare := abs_le.mp (r.round_fl_near 4 (x := (succeeded : ℚ) / (recorded + ended : ℕ)) (by positivity)
    (div_le_one_of_le₀ (by exact_mod_cast hle.trans (Nat.le_add_right _ _)) (Nat.cast_nonneg _)))
  have hrate := abs_le.mp (r.round_fl_near 4 (x := (succeeded : ℚ) / recorded) (by positivity)
    (div_le_one_of_le₀ (by exact_mod_cast hle) (Nat.cast_nonneg _)))
  rw [show r.fl ((succeeded : ℚ) / (recorded + ended : ℕ)) = r.div succeeded (recorded + ended : ℕ) from rfl, h] at hshare
  rw [show r.fl ((succeeded : ℚ) / recorded) = r.div succeeded recorded from rfl] at hrate
  have hdiff : (succeeded : ℚ) / recorded - succeeded / (recorded + ended : ℕ) =
      succeeded * ended / (recorded * (recorded + ended)) := by
    push_cast
    field_simp
    ring
  have hclose : (succeeded : ℚ) * ended / (recorded * (recorded + ended)) ≤ 1 / 9999 := by
    rw [← hdiff]
    have hsmall : (1 : ℚ) / 10 ^ 4 + 4 / 2 ^ 54 ≤ 1 / 9999 := by norm_num
    linarith [hshare.1, hrate.2]
  rw [div_le_div_iff₀ (by positivity) (by positivity)] at hclose
  have hmany : (100 : ℚ) ≤ succeeded * ended := by nlinarith
  have hfew : (recorded : ℚ) * (recorded + ended) ≤ 990000 := by nlinarith
  linarith

section
variable {r : Rounding} {s t : Session Commons} {id : JobId} {uses : List (Option AgentId × ToolUse)}
  {job : CityJobModel} {score : CohesionScore}

/-- What has succeeded has ended, and what has ended is recorded. -/
theorem tally_le (hjob : (s.working.getJob id).isSome) (h : (workshop id).exec s uses = some t) :
    (tally id s uses).succeeded ≤ (tally id s uses).ended ∧
      (tally id s uses).ended ≤ (tally id s uses).recorded := by
  obtain ⟨-, -, hended⟩ := runsOf_invocations hjob h
  refine ⟨List.countP_mono_left hended, List.countP_mono_left fun i _ hi => ?_⟩
  exact decide_eq_true (Nat.zero_lt_of_lt (of_decide_eq_true hi))

/-- The rows in terms of the tally. -/
theorem rows_tally (hinit : (workshop id).init s) (h : (workshop id).exec s uses = some t) :
    (t.working.runsOf id).length = (tally id s uses).recorded + (tally id s uses).ended := by
  obtain ⟨hjob, -, hruns⟩ := hinit
  obtain ⟨hlength, -, -⟩ := runsOf_invocations hjob h
  rw [hruns, List.length_nil, Nat.zero_add] at hlength
  exact hlength

/-- The rate in terms of the tally. -/
theorem successRate_tally (hinit : (workshop id).init s) (h : (workshop id).exec s uses = some t)
    (hrows : (t.working.runsOf id).length ≤ 1000) :
    t.working.successRate id = ((tally id s uses).succeeded : ℚ) /
      ((tally id s uses).recorded + (tally id s uses).ended : ℕ) := by
  have hlength := rows_tally hinit h
  obtain ⟨hjob, -, hruns⟩ := hinit
  obtain ⟨-, hcount, -⟩ := runsOf_invocations hjob h
  rw [hruns, List.countP_nil, Nat.zero_add] at hcount
  rw [Commons.successRate_eq hrows, hcount, hlength]
  rfl

/-- The score of a job all have worked on, with every second row a success. -/
theorem full_half : r.round 4 (r.add (r.mul (r.fl (6/10)) 1) (r.mul (r.fl (4/10)) (1/2))) = r.fl (4 / 5) := by
  have hwhole : r.mul (r.fl (6/10)) 1 = r.fl (6/10) := by rw [Rounding.mul, mul_one, r.idem]
  have hsix := abs_le.mp (r.near (6/10) (by norm_num [abs_le]))
  have hfour := abs_le.mp (r.near (4/10) (by norm_num [abs_le]))
  have htwo := abs_le.mp (r.near (r.fl (4/10) * (1/2)) (abs_le.mpr ⟨by linarith, by linarith⟩))
  have hsum := abs_le.mp (r.near (r.fl (6/10) + r.mul (r.fl (4/10)) (1/2))
    (abs_le.mpr ⟨by unfold Rounding.mul; linarith, by unfold Rounding.mul; linarith⟩))
  rw [hwhole, r.round_eq_of_near (n := 8000)]
  · norm_num
  · rw [abs_lt]
    unfold Rounding.add Rounding.mul at *
    constructor <;> push_cast <;> linarith

/-- **The success rate of a job** divides its successes by its invocations and those of them that came to
    their end, once more. So it is the rate of its invocations just where there is no success, or where four
    digits do not tell the difference; if every invocation succeeds, it is a half. -/
theorem toolSuccessRate_iff (hinit : (workshop id).init s) (h : (workshop id).exec s uses = some t)
    (hrows : (t.working.runsOf id).length ≤ 1000) (hjob : t.working.getJob id = some job)
    (hscore : cohesionScore r t.working id = some score) :
    let all := tally id s uses
    (t.working.successRate id = (all.succeeded : ℚ) / all.recorded ↔ all.succeeded = 0) ∧
      (score.toolSuccessRate = r.round 4 (r.div all.succeeded all.recorded) ↔
        all.succeeded = 0 ∨ r.round 4 (r.div all.succeeded (all.recorded + all.ended : ℕ)) =
          r.round 4 (r.div all.succeeded all.recorded)) ∧
      (10 ≤ all.succeeded → score.toolSuccessRate ≠ r.round 4 (r.div all.succeeded all.recorded)) ∧
      (0 < all.recorded → all.succeeded = all.recorded →
        score.toolSuccessRate = 1 / 2 ∧
          (t.working.participation job.familyId id = 1 → score.score = r.fl (4 / 5))) := by
  intro all
  obtain ⟨hsucceeded, hended⟩ := tally_le hinit.1 h
  have hrate := successRate_tally hinit h hrows
  obtain ⟨-, hround, hblend⟩ := Commons.cohesionScore_eq hjob hscore
  have hiff := rate_eq_iff hsucceeded hended
  have hlength : all.recorded + all.ended ≤ 1000 := by
    rw [← rows_tally hinit h]
    exact hrows
  refine ⟨by rw [hrate]; exact hiff, ?_, fun hmany heq => ?_, fun hsome hall => ?_⟩
  · rw [hround, hrate]
    constructor
    · exact .inr
    · rintro (hzero | hsame)
      · rw [hiff.mpr hzero]
        rfl
      · exact hsame
  · rw [hround, hrate] at heq
    exact absurd (succeeded_lt_ten hsucceeded hended hlength heq) (not_lt.mpr hmany)
  · have hhalf : t.working.successRate id = 1 / 2 := by
      have heq : all.ended = all.recorded := le_antisymm hended (hall ▸ hsucceeded)
      have hpos : (all.recorded : ℚ) ≠ 0 := by
        exact_mod_cast hsome.ne'
      rw [hrate]
      show (all.succeeded : ℚ) / (all.recorded + all.ended : ℕ) = 1 / 2
      rw [hall, heq]
      push_cast
      field_simp
      norm_num
    refine ⟨?_, fun hfull => ?_⟩
    · rw [hround, hhalf, r.fl_half, r.round_eq_of_near (n := 5000) (by norm_num)]
      norm_num [r.fl_half]
    · rw [hblend, hfull, hhalf, r.fl_one, r.fl_half]
      exact full_half

end

/-- A family of one, in a city that goes on as it will, and a job it has just started. -/
def mossJob (calls : List Call) : Option (JobId × Session Commons) := do
  let founding : CreateFamily := { name := "Moss", policy := { maxAgeTicks := some (some 1) } }
  let s ← (system ⟨"large", "small"⟩).exec emptyCity (.createFamily founding 1 :: calls)
  startJob (Session.start { s with artifacts := [], runs := [], events := [] }) 2 .build 3

/-- The founder runs a script of its own, and it succeeds. -/
def runInline : Option AgentId × ToolUse := (some 1, .runPython { code := some "print(1)" } .succeeded)

/-- One run that succeeds: a rate of one half. -/
theorem toolSuccessRate_runInline : ∃ id s t score, mossJob [] = some (id, s) ∧
    (workshop id).exec s [runInline] = some t ∧ cohesionScore .binary64 t.working id = some score ∧
    score.toolSuccessRate = 1 / 2 ∧ score.score = Binary64.fl (4 / 5) := by
  have hex : (mossJob []).any (fun p => ((workshop p.1).exec p.2 [runInline]).any fun t =>
      (p.2.working.getJob p.1).isSome && (p.2.working.artifactsOf p.1).isEmpty &&
        (p.2.working.runsOf p.1).isEmpty && (t.working.runsOf p.1).length ≤ 1000 &&
        (t.working.getJob p.1).any (fun job => (cohesionScore .binary64 t.working p.1).isSome &&
          t.working.participation job.familyId p.1 = 1) &&
        (tally p.1 p.2 [runInline]).recorded = 1 && (tally p.1 p.2 [runInline]).succeeded = 1) = true := by
    decide +kernel
  obtain ⟨⟨id, s⟩, hstart, hex⟩ := (Option.any_eq_true ..).mp hex
  obtain ⟨t, hrun, hp⟩ := System.exists_of_exec hex
  simp only [Bool.and_eq_true, decide_eq_true_eq, List.isEmpty_iff] at hp
  obtain ⟨⟨⟨⟨⟨⟨hjob, hartifacts⟩, hruns⟩, hrows⟩, hfull⟩, hrecorded⟩, hsucceeded⟩ := hp
  obtain ⟨job, hget, hfull⟩ := (Option.any_eq_true ..).mp hfull
  simp only [Bool.and_eq_true, decide_eq_true_eq] at hfull
  obtain ⟨score, hscore⟩ := Option.isSome_iff_exists.mp hfull.1
  obtain ⟨-, -, -, hall⟩ := toolSuccessRate_iff ⟨hjob, hartifacts, hruns⟩ hrun hrows hget hscore
  obtain ⟨hrate, hblend⟩ := hall (hrecorded ▸ Nat.one_pos) (hsucceeded.trans hrecorded.symm)
  exact ⟨id, s, t, score, hstart, hrun, hscore, hrate, hblend hfull.2⟩

/-- **Every invocation succeeded, everybody took part, and the rate is not one.** -/
theorem all_succeeded_half : ∃ id s t score, mossJob [] = some (id, s) ∧
    (workshop id).init s ∧ (workshop id).exec s [runInline] = some t ∧
    (tally id s [runInline]).recorded = 1 ∧ (tally id s [runInline]).succeeded = 1 ∧
    cohesionScore .binary64 t.working id = some score ∧ score.participation = 1 ∧
    score.toolSuccessRate ≠ 1 ∧ score.score ≠ 1 := by
  have hex : (mossJob []).any (fun p => ((workshop p.1).exec p.2 [runInline]).any fun t =>
      (p.2.working.getJob p.1).isSome && (p.2.working.artifactsOf p.1).isEmpty &&
        (p.2.working.runsOf p.1).isEmpty && (tally p.1 p.2 [runInline]).recorded = 1 &&
        (tally p.1 p.2 [runInline]).succeeded = 1 && (cohesionScore .binary64 t.working p.1).any fun score =>
          score.participation = 1 && score.toolSuccessRate ≠ 1 && score.score ≠ 1) = true := by
    decide +kernel
  obtain ⟨⟨id, s⟩, hstart, hex⟩ := (Option.any_eq_true ..).mp hex
  obtain ⟨t, hrun, hp⟩ := System.exists_of_exec hex
  simp only [Bool.and_eq_true, decide_eq_true_eq, List.isEmpty_iff] at hp
  obtain ⟨⟨⟨⟨⟨hjob, hartifacts⟩, hruns⟩, hrecorded⟩, hsucceeded⟩, hscore⟩ := hp
  obtain ⟨score, hscore, hvalues⟩ := (Option.any_eq_true ..).mp hscore
  simp only [Bool.and_eq_true, decide_eq_true_eq] at hvalues
  exact ⟨id, s, t, score, hstart, ⟨hjob, hartifacts, hruns⟩, hrun, hrecorded, hsucceeded, hscore,
    hvalues.1.1, hvalues.1.2, hvalues.2⟩

end Persola.City
