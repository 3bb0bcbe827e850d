import Persola.Lib.Pool
import Persola.Lib.Runs

/-!
# `Throttled` — jobs that share a semaphore

A list of jobs that start and end in any order, at most `limit` under way at a time; each ends with a result of its own.
What has been started and what has come back grow by one entry a step, whatever the order, so when all have ended every
item has been started once and has one result. With a limit of one at least they never get stuck.
-/

namespace Throttled

open Runs

variable {α ρ β : Type*}

/-- Where a job stands. -/
inductive Stage (ρ : Type*)
  | waiting
  | underWay
  | ended (result : ρ)

/-- A job, and the item it is for. -/
structure Job (α ρ : Type*) where
  item : α
  stage : Stage ρ := .waiting

namespace Job

def isUnderWay (job : Job α ρ) : Bool :=
  match job.stage with
  | .underWay => true
  | .waiting | .ended _ => false

/-- The item, if the job has been started. -/
def begun (job : Job α ρ) : Option α :=
  match job.stage with
  | .waiting => none
  | .underWay | .ended _ => some job.item

/-- The item and what came of it, if the job has ended. -/
def outcome (job : Job α ρ) : Option (α × ρ) :=
  match job.stage with
  | .ended result => some (job.item, result)
  | .waiting | .underWay => none

end Job

/-- Some job, known by its place in the list, starts or ends. -/
inductive Event (ρ : Type*)
  | start (i : ℕ)
  | finish (i : ℕ) (result : ρ)

/-- The jobs under way. -/
def underWay (jobs : List (Job α ρ)) : ℕ := jobs.countP Job.isUnderWay

/-- What happens to the jobs; `none` while the semaphore has no slot, and where nothing of the kind can happen. -/
def step (limit : ℕ) (jobs : List (Job α ρ)) : Event ρ → Option (List (Job α ρ))
  | .start i => do
      let job ← jobs[i]?
      match job.stage with
      | .waiting => if underWay jobs < limit then some (jobs.set i { job with stage := .underWay }) else none
      | .underWay | .ended _ => none
  | .finish i result => do
      let job ← jobs[i]?
      match job.stage with
      | .underWay => some (jobs.set i { job with stage := .ended result })
      | .waiting | .ended _ => none

/-- The item that an event starts. -/
def started (jobs : List (Job α ρ)) : Event ρ → List α
  | .start i => (jobs[i]?.map (·.item)).toList
  | .finish _ _ => []

/-- The item that an event ends, and what came of it. -/
def answered (jobs : List (Job α ρ)) : Event ρ → List (α × ρ)
  | .start _ => []
  | .finish i result => (jobs[i]?.map fun job => (job.item, result)).toList

/-- Jobs for some items, before any has started. -/
def submit (items : List α) : List (Job α ρ) := items.map fun item => { item := item }

/-- The results, if all jobs have ended. -/
def results (jobs : List (Job α ρ)) : Option (List (α × ρ)) := jobs.mapM Job.outcome

section
variable {limit : ℕ} {jobs jobs' : List (Job α ρ)} {e : Event ρ}

theorem items_submit (items : List α) : (submit items : List (Job α ρ)).map (·.item) = items := by
  unfold submit
  rw [List.map_map]
  exact List.map_id _

theorem underWay_submit (items : List α) : underWay (submit items : List (Job α ρ)) = 0 := by
  simp [underWay, submit, Job.isUnderWay]

theorem begun_submit (items : List α) : (submit items : List (Job α ρ)).filterMap Job.begun = [] := by
  simp [submit, Job.begun]

theorem outcome_submit (items : List α) : (submit items : List (Job α ρ)).filterMap Job.outcome = [] := by
  simp [submit, Job.outcome]

/-- **What an event does.** -/
theorem step_cases (h : step limit jobs e = some jobs') :
    (∃ i job, e = .start i ∧ jobs[i]? = some job ∧ job.stage = .waiting ∧ underWay jobs < limit ∧
      jobs' = jobs.set i { job with stage := .underWay }) ∨
    ∃ i job result, e = .finish i result ∧ jobs[i]? = some job ∧ job.stage = .underWay ∧
      jobs' = jobs.set i { job with stage := .ended result } := by
  cases e with
  | start i =>
      obtain ⟨job, hjob, h⟩ := Option.bind_eq_some_iff.mp h
      cases hstage : job.stage with
      | waiting =>
          rw [hstage] at h
          obtain ⟨hfree, h⟩ := Option.ite_none_right_eq_some.mp h
          exact .inl ⟨i, job, rfl, hjob, hstage, hfree, (Option.some.inj h).symm⟩
      | underWay => rw [hstage] at h; cases h
      | ended result => rw [hstage] at h; cases h
  | finish i result =>
      obtain ⟨job, hjob, h⟩ := Option.bind_eq_some_iff.mp h
      cases hstage : job.stage with
      | underWay =>
          rw [hstage] at h
          exact .inr ⟨i, job, result, rfl, hjob, hstage, (Option.some.inj h).symm⟩
      | waiting => rw [hstage] at h; cases h
      | ended result => rw [hstage] at h; cases h

/-- The jobs stay those for their items. -/
theorem items_step (h : step limit jobs e = some jobs') : jobs'.map (·.item) = jobs.map (·.item) := by
  obtain ⟨i, job, rfl, hjob, -, -, rfl⟩ | ⟨i, job, result, rfl, hjob, -, rfl⟩ := step_cases h
  · exact Pool.map_set hjob rfl
  · exact Pool.map_set hjob rfl

/-- The semaphore holds. -/
theorem underWay_step (h : step limit jobs e = some jobs') (hle : underWay jobs ≤ limit) :
    underWay jobs' ≤ limit := by
  unfold underWay at hle ⊢
  obtain ⟨i, job, rfl, hjob, hstage, hfree, rfl⟩ | ⟨i, job, result, rfl, hjob, hstage, rfl⟩ := step_cases h
  · have hcount := Pool.countP_set (f := Job.isUnderWay) hjob { job with stage := .underWay }
    have hold : job.isUnderWay = false := by simp [Job.isUnderWay, hstage]
    have hnew : ({ job with stage := .underWay } : Job α ρ).isUnderWay = true := rfl
    rw [hold, hnew] at hcount
    unfold underWay at hfree
    simp only [Bool.false_eq_true, if_false, if_true] at hcount
    omega
  · have hcount := Pool.countP_set (f := Job.isUnderWay) hjob { job with stage := .ended result }
    have hnew : ({ job with stage := .ended result } : Job α ρ).isUnderWay = false := rfl
    rw [hnew] at hcount
    simp only [Bool.false_eq_true, if_false] at hcount
    omega

/-- What has been started grows by what an event starts. -/
theorem begun_step (h : step limit jobs e = some jobs') :
    (jobs'.filterMap Job.begun).Perm (jobs.filterMap Job.begun ++ started jobs e) := by
  obtain ⟨i, job, rfl, hjob, hstage, -, rfl⟩ | ⟨i, job, result, rfl, hjob, hstage, rfl⟩ := step_cases h
  · have hold : job.begun = none := by simp [Job.begun, hstage]
    have hitem : started jobs (.start i) = [job.item] := by simp [started, hjob]
    rw [hitem]
    exact Pool.filterMap_set hjob hold rfl
  · have hsame : ({ job with stage := .ended result } : Job α ρ).begun = job.begun := by
      simp [Job.begun, hstage]
    show (List.filterMap Job.begun _).Perm (_ ++ [])
    rw [List.append_nil, Pool.filterMap_set_same hjob hsame]

/-- Only items there are jobs for are started. -/
theorem mem_items_of_mem_started {a : α} (h : a ∈ started jobs e) : a ∈ jobs.map (·.item) := by
  cases e with
  | start i =>
      obtain ⟨job, hjob, rfl⟩ := Option.map_eq_some_iff.mp (Option.mem_toList.mp h)
      exact List.mem_map_of_mem (List.mem_of_getElem? hjob)
  | finish i result => cases h

/-- What has come back grows by what an event answers. -/
theorem outcome_step (h : step limit jobs e = some jobs') :
    (jobs'.filterMap Job.outcome).Perm (jobs.filterMap Job.outcome ++ answered jobs e) := by
  obtain ⟨i, job, rfl, hjob, hstage, -, rfl⟩ | ⟨i, job, result, rfl, hjob, hstage, rfl⟩ := step_cases h
  · have hsame : ({ job with stage := .underWay } : Job α ρ).outcome = job.outcome := by
      simp [Job.outcome, hstage]
    show (List.filterMap Job.outcome _).Perm (_ ++ [])
    rw [List.append_nil, Pool.filterMap_set_same hjob hsame]
  · have hold : job.outcome = none := by simp [Job.outcome, hstage]
    have hitem : answered jobs (.finish i result) = [(job.item, result)] := by simp [answered, hjob]
    rw [hitem]
    exact Pool.filterMap_set hjob hold rfl

/-- **When all have ended**, every item has been started and has its result. -/
theorem results_spec {rs : List (α × ρ)} (h : results jobs = some rs) :
    jobs.filterMap Job.outcome = rs ∧ rs.map Prod.fst = jobs.map (·.item) ∧
      jobs.filterMap Job.begun = jobs.map (·.item) := by
  induction jobs generalizing rs with
  | nil =>
      obtain rfl := Option.some.inj h
      exact ⟨rfl, rfl, rfl⟩
  | cons job jobs ih =>
      unfold results at h
      rw [List.mapM_cons] at h
      obtain ⟨r, hr, h⟩ := Option.bind_eq_some_iff.mp h
      obtain ⟨rest, hrest, h⟩ := Option.bind_eq_some_iff.mp h
      obtain rfl := Option.some.inj h
      obtain ⟨houtcome, hitems, hbegun⟩ := ih hrest
      cases hstage : job.stage with
      | waiting => simp [Job.outcome, hstage] at hr
      | underWay => simp [Job.outcome, hstage] at hr
      | ended result =>
          obtain rfl : r = (job.item, result) := by simpa [Job.outcome, hstage] using hr.symm
          have hstarted : job.begun = some job.item := by simp [Job.begun, hstage]
          rw [List.filterMap_cons_some hr, List.filterMap_cons_some hstarted, houtcome, hbegun, List.map_cons,
            List.map_cons, hitems]
          exact ⟨rfl, rfl, rfl⟩

/-- If every job has ended, there are results. -/
theorem results_isSome (h : ∀ job ∈ jobs, job.outcome.isSome) : (results jobs).isSome := by
  induction jobs with
  | nil => rfl
  | cons job jobs ih =>
      obtain ⟨hjob, hjobs⟩ := List.forall_mem_cons.mp h
      obtain ⟨r, hr⟩ := Option.isSome_iff_exists.mp hjob
      obtain ⟨rest, hrest⟩ := Option.isSome_iff_exists.mp (ih hjobs)
      unfold results at hrest ⊢
      rw [List.mapM_cons, hr, hrest]
      rfl

/-- **The jobs never get stuck**: while one has not ended, one is under way, or the semaphore has a slot for one. -/
theorem exists_step (hlimit : 0 < limit) (h : results jobs = none) (result : ρ) :
    ∃ i, (step limit jobs (.start i)).isSome ∨ (step limit jobs (.finish i result)).isSome := by
  by_cases hany : ∃ job ∈ jobs, job.isUnderWay = true
  · obtain ⟨job, hmem, hrunning⟩ := hany
    obtain ⟨i, hi⟩ := List.mem_iff_getElem?.mp hmem
    refine ⟨i, .inr ?_⟩
    cases hstage : job.stage with
    | waiting => simp [Job.isUnderWay, hstage] at hrunning
    | underWay => simp [step, hi, hstage]
    | ended r => simp [Job.isUnderWay, hstage] at hrunning
  · have hidle : underWay jobs = 0 := List.countP_eq_zero.mpr fun job hmem hrunning => hany ⟨job, hmem, hrunning⟩
    by_contra hstuck
    have hended : ∀ job ∈ jobs, job.outcome.isSome := by
      intro job hmem
      obtain ⟨i, hi⟩ := List.mem_iff_getElem?.mp hmem
      cases hstage : job.stage with
      | waiting =>
          refine absurd ⟨i, .inl ?_⟩ hstuck
          simp [step, hi, hstage, hidle, hlimit]
      | underWay => exact absurd ⟨job, hmem, by simp [Job.isUnderWay, hstage]⟩ hany
      | ended r => simp [Job.outcome, hstage]
    have hresults := results_isSome hended
    rw [h] at hresults
    cases hresults

end

end Throttled
