import Persola.Workqueue.Ticks
import Persola.Workqueue.Turns

/-!
# `Workqueue.Forced` — forcing one task now

`POST /tasks/{task_id}/tick` looks up a task and then lets a worker tick for the team of the request and the role of
the task. The worker claims what it finds, the oldest task of that team and role, and the answer is about that one.
So the task that was asked for is worked exactly if the claim happens to pick it.
-/

namespace Persola.Workqueue.Forced

open Ticks

/-- The tables a request reads and writes. -/
structure Store where
  board : Board
  audits : List AuditEvent := []
  events : List CityEvent := []

/-- What `delegate_subtask` or `enqueue_task` queues. -/
structure Delegated where
  taskId : TaskId
  teamId : String := "default"
  role : String := "executor"
  subtask : String := ""
  origin : String := "delegate_subtask"
  sessionId : Option String
  now : Time

/-- The row of a delegated task. -/
def Delegated.task (d : Delegated) : WorkTask :=
  .new d.taskId d.teamId d.role d.subtask d.origin none d.sessionId d.now

/-- `AgentTaskQueue.enqueue`; an id that is taken is turned away. -/
def enqueue (b : Board) (d : Delegated) : Board :=
  if h : b.get? d.task.taskId = none then b.insert d.task h else b

/-- What a request meets: the provider, the clock, how the run of the team ends, and what it delegates and records
meanwhile. -/
structure Circumstances where
  available : Bool
  recoveredAt : Time
  claimedAt : Time
  finishedAt : Time
  outcome : Outcome
  delegated : List Delegated
  told : List AuditEvent

/-- `TaskQueueWorker._tick` in the caller's session: what is committed, and the task of the result. -/
def tick (s : Store) (team : String) (role : Option String) (c : Circumstances) : Store × Option WorkTask :=
  match Board.claimNext s.board team role c.recoveredAt c.claimedAt with
  -- nothing to claim: the session ends without a commit
  | (_, none) => (s, none)
  | (claimed, some task) =>
      let working := claimed.modify task.taskId (·.markInProgress) fun _ => WorkTask.markInProgress_taskId
      -- the run has sessions of its own for what it delegates and records
      let after := c.delegated.foldl enqueue working
      let board := after.modify task.taskId (finishRow c.outcome c.finishedAt) fun _ => finishRow_taskId
      ({ board
         audits := s.audits ++ claimedAudit team task :: (c.told ++ [terminalAudit team task c.outcome])
         events := s.events ++ [terminalEvent task c.outcome] },
        board.get? task.taskId)

inductive Reply
  | ok (task : WorkTask)
  | httpError (status : ℕ) (detail : String)
deriving DecidableEq, Repr

/-- `tick_single_task`. -/
def tickSingleTask (s : Store) (taskId : TaskId) (team : String) (c : Circumstances) : Store × Reply :=
  match s.board.get? taskId with
  | none => (s, .httpError 404 "Task not found")
  | some task =>
      if task.status ≠ .queued then (s, .ok task)
      else if ¬ c.available then (s, .httpError 503 "No LLM provider available")
      else
        -- the role is that of the task, the team is not
        match tick s team (some task.role) c with
        | (s', none) => (s', .httpError 409 "Task was claimed by another worker before this tick")
        | (s', some t) => (s', .ok t)

/-- The answer is that the task is over, and no other task has another status, save for stale claims. -/
structure Processes (b b' : Board) (id : TaskId) (team : String) (now : Time) (answer : WorkTask) : Prop where
  same : answer.taskId = id
  finished : answer.status = .done ∨ answer.status = .failed
  others : ∀ y ∈ b.rows, y.taskId ≠ id → ∃ y', b'.get? y.taskId = some y' ∧
    (y'.status = y.status ∨ y.Stale team now ∧ y'.status = .queued)

/-- What forcing a task promises, unless the answer is an HTTP error. -/
def Forces (s : Store) (id : TaskId) (team : String) (c : Circumstances) : Prop :=
  ∀ answer, (tickSingleTask s id team c).2 = .ok answer →
    Processes s.board (tickSingleTask s id team c).1.board id team c.recoveredAt answer

section
variable {s : Store} {b : Board} {team : String} {role : Option String} {c : Circumstances} {id : TaskId}
  {x y : WorkTask}

/-- Delegating leaves the tasks that are there. -/
theorem get?_delegate {ds : List Delegated} (h : b.get? id = some y) : (ds.foldl enqueue b).get? id = some y := by
  induction ds generalizing b with
  | nil => exact h
  | cons d ds ih =>
      refine ih ?_
      unfold enqueue
      split
      · next hnew => exact Table.get?_insert_of_some hnew h
      · exact h

/-- What a claim makes of a row. -/
theorem get?_claimNext (hx : x ∈ b.rows) :
    (Board.claimNext b team role c.recoveredAt c.claimedAt).1.get? x.taskId = some
      (if (Board.oldestClaimable b team role c.recoveredAt).map WorkTask.taskId = some x.taskId then
        (Board.recovered team c.recoveredAt x).claim c.claimedAt
      else Board.recovered team c.recoveredAt x) := by
  unfold Table.get?
  rw [Board.claimNext_rows, Table.find?_mapRows]
  · exact congrArg (Option.map _) (Table.get?_key hx)
  · intro t
    split
    · exact Board.recovered_taskId
    · exact Board.recovered_taskId

/-- A tick without a claimable task does nothing. -/
theorem tick_of_none (h : Board.oldestClaimable s.board team role c.recoveredAt = none) :
    tick s team role c = (s, none) := by
  have hnone : (Board.claimNext s.board team role c.recoveredAt c.claimedAt).2 = none := by
    rw [Board.claimNext_returns, h]
    rfl
  unfold tick
  split
  · rfl
  · next heq =>
      rw [heq] at hnone
      cases hnone

/-- **A tick finishes the task it claims and leaves the status of every other one**, save for stale claims. -/
theorem tick_of_some (h : Board.oldestClaimable s.board team role c.recoveredAt = some x) :
    ∃ answer, (tick s team role c).2 = some answer ∧
      Processes s.board (tick s team role c).1.board x.taskId team c.recoveredAt answer := by
  have hx : x ∈ s.board.rows := (Board.oldestClaimable_eq_some_iff.mp h).mem
  have hsome : (Board.claimNext s.board team role c.recoveredAt c.claimedAt).2 =
      some ((Board.recovered team c.recoveredAt x).claim c.claimedAt) := by
    rw [Board.claimNext_returns, h]
    rfl
  have hrows (y : WorkTask) (hy : y ∈ s.board.rows) :
      (Board.claimNext s.board team role c.recoveredAt c.claimedAt).1.get? y.taskId = some _ := get?_claimNext hy
  unfold tick
  split
  · next heq =>
      rw [heq] at hsome
      cases hsome
  · next claimed task heq =>
      rw [heq] at hsome hrows
      obtain rfl := Option.some.inj hsome
      rw [h] at hrows
      have hid : ((Board.recovered team c.recoveredAt x).claim c.claimedAt).taskId = x.taskId :=
        Board.recovered_taskId
      dsimp only
      rw [hid]
      have hself := hrows x hx
      rw [Option.map_some, if_pos rfl] at hself
      let taken := ((Board.recovered team c.recoveredAt x).claim c.claimedAt).markInProgress
      refine ⟨finishRow c.outcome c.finishedAt taken, ?_, ?_, finishRow_finished, fun y hy hne => ?_⟩
      · rw [Table.get?_modify_self, get?_delegate (y := taken)]
        · rfl
        · rw [Table.get?_modify_self, hself]
          rfl
      · exact finishRow_taskId.trans hid
      · have hother := hrows y hy
        rw [Option.map_some, if_neg fun heq => hne (Option.some.inj heq).symm] at hother
        refine ⟨Board.recovered team c.recoveredAt y, ?_, ?_⟩
        · rw [Table.get?_modify_ne hne]
          exact get?_delegate (by rw [Table.get?_modify_ne hne, hother])
        · unfold Board.recovered
          split
          · next hstale => exact .inr ⟨hstale, rfl⟩
          · exact .inl rfl

/-- **Forcing a task does what it promises exactly if it is that task's turn**, or nothing awaits the claim: then the
answer is an error. -/
theorem forces_iff (hx : x ∈ s.board.rows) (hqueued : x.status = .queued) (havailable : c.available = true) :
    Forces s x.taskId team c ↔
      (∀ t ∈ s.board.rows, ¬ Board.Awaits team (some x.role) c.recoveredAt t) ∨
        Board.IsNext s.board team (some x.role) c.recoveredAt x := by
  have hrequest : tickSingleTask s x.taskId team c =
      match tick s team (some x.role) c with
      | (s', none) => (s', .httpError 409 "Task was claimed by another worker before this tick")
      | (s', some t) => (s', .ok t) := by
    unfold tickSingleTask
    rw [Table.get?_key hx]
    dsimp only
    rw [if_neg (not_not.mpr hqueued), if_neg (not_not.mpr havailable)]
  unfold Forces
  rw [hrequest, ← Board.oldestClaimable_eq_none_iff, ← Board.oldestClaimable_eq_some_iff]
  cases hnext : Board.oldestClaimable s.board team (some x.role) c.recoveredAt with
  | none =>
      rw [tick_of_none hnext]
      exact iff_of_true (fun _ h => by cases h) (.inl rfl)
  | some t =>
      obtain ⟨answer, hanswer, hprocesses⟩ := tick_of_some hnext
      have hpair : tick s team (some x.role) c = ((tick s team (some x.role) c).1, some answer) :=
        Prod.ext rfl hanswer
      rw [hpair]
      constructor
      · intro hforces
        -- what is answered is the task that was claimed
        have hsame : t.taskId = x.taskId := hprocesses.same.symm.trans (hforces answer rfl).same
        have ht : t ∈ s.board.rows := (Board.oldestClaimable_eq_some_iff.mp hnext).mem
        exact .inr (congrArg some (List.inj_on_of_nodup_map s.board.nodup ht hx hsame))
      · intro hpicks answer' hanswer'
        obtain rfl := Option.some.inj (hpicks.resolve_left (by simp))
        cases hanswer'
        exact hprocesses

end

/-- The provider is there and the team answers. -/
def answered : Circumstances where
  available := true
  recoveredAt := 10
  claimedAt := 11
  finishedAt := 12
  outcome := .returned "answer"
  delegated := []
  told := []

/-- The older of two tasks is the one the claim picks. -/
theorem forces_oldest : Forces ⟨Turns.twoQueued, [], []⟩ "t1" "default" answered := by
  have holdest : Board.oldestClaimable Turns.twoQueued "default" (some "coordinator") 10 =
      some (.new "t1" "default" "coordinator" "do it" "user" none none 1) := by
    decide +kernel
  exact (forces_iff (x := .new "t1" "default" "coordinator" "do it" "user" none none 1) List.mem_cons_self rfl
    rfl).mpr (.inr (Board.oldestClaimable_eq_some_iff.mp holdest))

/-- **Forcing the younger one** works the older one, and answers with it. -/
theorem forces_another : ¬ ∀ s x team c, x ∈ s.board.rows → x.status = .queued → c.available = true →
    Forces s x.taskId team c := by
  intro hall
  have hforces := hall ⟨Turns.twoQueued, [], []⟩
    (.new "t2" "default" "coordinator" "and that" "user" none none 2) "default" answered
    (List.mem_cons_of_mem _ List.mem_cons_self) rfl rfl
  let answer : WorkTask :=
    { WorkTask.new "t1" "default" "coordinator" "do it" "user" none none 1 with
      status := .done, result := some "answer", claimedAt := some 11, completedAt := some 12 }
  have hanswer : (tickSingleTask ⟨Turns.twoQueued, [], []⟩ "t2" "default" answered).2 = .ok answer := by
    decide +kernel
  exact absurd (hforces answer hanswer).same (by decide)

end Persola.Workqueue.Forced
