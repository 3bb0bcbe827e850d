import Persola.Lib.Select
import Persola.Lib.Table

/-!
# `Workqueue.Board` — the kanban board of `work_tasks` and the statements run on it

Rows are found by their unique `task_id`. The functions of `WorkTaskRepository` are given as what each
statement does to the rows it sees; who sees which rows, and when a change becomes visible to others, is
left to the modules that run them.
-/

namespace Persola.Workqueue

/-- Microseconds. -/
abbrev Time := ℕ

abbrev TaskId := String

/-- `WorkTaskStatus`. -/
inductive TaskStatus
  | queued | claimed | inProgress | blocked | done | failed
deriving DecidableEq, Repr

/-- A row of `work_tasks`. -/
structure WorkTask where
  taskId : TaskId
  teamId : String
  role : String
  subtask : String
  origin : String
  status : TaskStatus
  result : Option String := none
  error : Option String := none
  parentTaskId : Option String
  sessionId : Option String
  createdAt : Time
  claimedAt : Option Time := none
  completedAt : Option Time := none
deriving DecidableEq, Repr

/-- `uq_work_tasks_task_id`: no two rows share a task id. -/
abbrev Board := Table WorkTask.taskId

namespace WorkTask

/-- The task is over. -/
def Finished (t : WorkTask) : Prop := t.status = .done ∨ t.status = .failed

instance (t : WorkTask) : Decidable t.Finished := inferInstanceAs (Decidable (_ ∨ _))

/-- `stale_after_seconds=600`. -/
def staleAfter : Time := 600 * 1000000

/-- The `WHERE` clause of `recover_stale`. -/
def Stale (team : String) (now : Time) (t : WorkTask) : Prop :=
  t.teamId = team ∧ (t.status = .claimed ∨ t.status = .inProgress) ∧
    -- a claim without a time is stale at once
    ∀ at' ∈ t.claimedAt, at' + staleAfter < now

instance (team : String) (now : Time) (t : WorkTask) : Decidable (t.Stale team now) :=
  inferInstanceAs (Decidable (_ ∧ _ ∧ _))

/-- The `SET` clause of `recover_stale`. -/
def requeue (t : WorkTask) : WorkTask :=
  { t with status := .queued, error := some "re-queued: stale claim" }

/-- The `WHERE` clause of the claim. -/
def QueuedFor (team : String) (role : Option String) (t : WorkTask) : Prop :=
  t.teamId = team ∧ t.status = .queued ∧ ∀ r ∈ role, t.role = r

instance (team : String) (role : Option String) (t : WorkTask) : Decidable (t.QueuedFor team role) :=
  inferInstanceAs (Decidable (_ ∧ _ ∧ _))

/-- What `claim_next` does to the row it picks. -/
def claim (now : Time) (t : WorkTask) : WorkTask :=
  { t with status := .claimed, claimedAt := some now }

/-- `update_status` on the row it found: `None` leaves a field as it is. -/
def updateStatus (status : TaskStatus) (result error : Option String) (completedAt : Option Time)
    (t : WorkTask) : WorkTask :=
  { t with
    status
    result := result <|> t.result
    error := error <|> t.error
    completedAt := completedAt <|> t.completedAt }

/-- `AgentTaskQueue.mark_in_progress`. -/
def markInProgress : WorkTask → WorkTask := updateStatus .inProgress none none none

/-- `AgentTaskQueue.complete`. -/
def complete (result : String) (now : Time) : WorkTask → WorkTask :=
  updateStatus .done (some result) none (some now)

/-- `AgentTaskQueue.fail`. -/
def fail (error : String) (now : Time) : WorkTask → WorkTask :=
  updateStatus .failed none (some error) (some now)

/-- `AgentTaskQueue.block`. -/
def block (reason : String) : WorkTask → WorkTask := updateStatus .blocked none (some reason) none

/-- The row `enqueue` creates. -/
def new (taskId : TaskId) (team role subtask origin : String)
    (parentTaskId sessionId : Option String) (now : Time) : WorkTask where
  taskId := taskId
  teamId := team
  role := role
  subtask := subtask
  origin := origin
  status := .queued
  parentTaskId := parentTaskId
  sessionId := sessionId
  createdAt := now

variable {t : WorkTask} {team : String} {role : Option String} {now : Time}

theorem Stale.not_finished (h : t.Stale team now) : ¬ t.Finished := by
  obtain ⟨-, h | h, -⟩ := h <;> simp [Finished, h]

theorem QueuedFor.not_finished (h : t.QueuedFor team role) : ¬ t.Finished := by
  simp [Finished, h.2.1]

@[simp] theorem claim_taskId : (t.claim now).taskId = t.taskId := rfl

@[simp] theorem markInProgress_taskId : t.markInProgress.taskId = t.taskId := rfl

@[simp] theorem complete_taskId {r : String} : (t.complete r now).taskId = t.taskId := rfl

@[simp] theorem fail_taskId {e : String} : (t.fail e now).taskId = t.taskId := rfl

@[simp] theorem block_taskId {r : String} : (t.block r).taskId = t.taskId := rfl

theorem requeue_not_finished : ¬ t.requeue.Finished := by simp [Finished, requeue]

theorem claim_not_finished : ¬ (t.claim now).Finished := by simp [Finished, claim]

theorem markInProgress_not_finished : ¬ t.markInProgress.Finished := by
  simp [Finished, markInProgress, updateStatus]

theorem complete_finished {r : String} : (t.complete r now).Finished := Or.inl rfl

theorem fail_finished {e : String} : (t.fail e now).Finished := Or.inr rfl

end WorkTask

namespace Board

/-- `recover_stale` on the rows of a board. -/
def recoverStale (b : Board) (team : String) (now : Time) : Board :=
  b.mapRows (fun t => if t.Stale team now then t.requeue else t) fun t => by
    split <;> rfl

/-- The rows the claim selects, oldest first. -/
def queuedFor (b : Board) (team : String) (role : Option String) : List WorkTask :=
  Select.orderBy (·.createdAt) (b.rows.filter fun t => t.QueuedFor team role)

@[simp] theorem mem_queuedFor {b : Board} {team : String} {role : Option String} {t : WorkTask} :
    t ∈ b.queuedFor team role ↔ t ∈ b.rows ∧ t.QueuedFor team role := by
  simp [queuedFor]

end Board

end Persola.Workqueue
