import Persola.Lib.Runs
import Persola.Lib.Py
import Persola.Workqueue.Board
import Mathlib.Logic.Function.Basic

/-!
# `Workqueue.Ticks` — worker ticks as transactions with row locks

A tick of `TaskQueueWorker` is one transaction: it re-queues stale claims, claims, records, runs the team,
records the outcome and commits. What it writes stays private until the commit; the rows it updated or
selected `FOR UPDATE` stay locked until its end. The claim skips rows locked by others; the re-queuing
`UPDATE` waits for them. A process can die at any time, which rolls its transaction back.
-/

namespace Persola.Workqueue.Ticks

open Runs

/-! ## What a tick writes -/

/-- `AuditEventType`. -/
inductive AuditEventType
  | instruction | decision | reply | statusChange | toolCall
deriving DecidableEq, Repr

/-- A row of `audit_events`. -/
structure AuditEvent where
  teamId : String
  eventType : AuditEventType
  actor : String
  recipient : Option String := none
  summary : String
  taskId : Option TaskId
  sessionId : Option String
deriving DecidableEq, Repr

/-- The payload of a `workqueue.task` city event. -/
structure TaskPayload where
  taskId : TaskId
  teamId : String
  role : String
  subtask : String
  result : Option String
  error : Option String
deriving DecidableEq, Repr

/-- A row of `city_events` without family and job. -/
structure CityEvent where
  eventType : String
  payload : TaskPayload
deriving DecidableEq, Repr

/-- How `orchestrator.run` ends, the construction of the orchestrator included. -/
inductive Outcome
  | returned (response : String)
  | raised (text : String)
deriving DecidableEq, Repr

/-- `s[:n]`. -/
def truncate (n : ℕ) (s : String) : String := String.ofList (s.toList.take n)

/-- `_record_city_event`. -/
def recordCityEvent (task : WorkTask) (outcome : String) (result error : Option String) :
    CityEvent where
  eventType := "workqueue.task." ++ outcome
  payload :=
    { taskId := task.taskId, teamId := task.teamId, role := task.role,
      subtask := truncate 500 task.subtask
      result := result.map (truncate 1000)
      error := error.map (truncate 1000) }

/-- The audit event recorded after the claim. -/
def claimedAudit (team : String) (task : WorkTask) : AuditEvent where
  teamId := team
  eventType := .statusChange
  actor := task.role
  summary := "claimed task " ++ task.taskId
  taskId := some task.taskId
  sessionId := task.sessionId

/-- `task.session_id or task.task_id`. -/
def runSessionId (task : WorkTask) : String := Py.orElse task.sessionId task.taskId

/-- The audit event recorded after the run; a completed one names the session of the run, a failed one
    that of the task. -/
def terminalAudit (team : String) (task : WorkTask) (o : Outcome) : AuditEvent where
  teamId := team
  eventType := .statusChange
  actor := task.role
  summary := match o with
    | .returned _ => "completed task " ++ task.taskId
    | .raised text => "failed task " ++ task.taskId ++ ": " ++ text
  taskId := some task.taskId
  sessionId := match o with
    | .returned _ => some (runSessionId task)
    | .raised _ => task.sessionId

/-- The city event recorded after the run. -/
def terminalEvent (task : WorkTask) (o : Outcome) : CityEvent :=
  match o with
  | .returned response => recordCityEvent task "completed" (some response) none
  | .raised text => recordCityEvent task "failed" none (some text)

/-- The status write after the run. -/
def finishRow (o : Outcome) (now : Time) (t : WorkTask) : WorkTask :=
  match o with
  | .returned response => t.complete response now
  | .raised text => t.fail text now

@[simp] theorem finishRow_taskId {o : Outcome} {now : Time} {t : WorkTask} :
    (finishRow o now t).taskId = t.taskId := by cases o <;> rfl

theorem finishRow_finished {o : Outcome} {now : Time} {t : WorkTask} :
    (finishRow o now t).Finished := by
  cases o
  · exact WorkTask.complete_finished
  · exact WorkTask.fail_finished

/-! ## Private row versions -/

/-- The row versions a transaction wrote, each under its own id. -/
structure Writes where
  get : TaskId → Option WorkTask
  taskId_get : ∀ {id t}, get id = some t → t.taskId = id

namespace Writes

def empty : Writes := ⟨fun _ => none, fun h => by cases h⟩

/-- The versions of the rows of a list. -/
def ofRows (rows : List WorkTask) : Writes where
  get id := rows.find? fun t => t.taskId = id
  taskId_get h := by simpa using List.find?_some h

/-- Write one more version. -/
def set (w : Writes) (t : WorkTask) : Writes where
  get := Function.update w.get t.taskId (some t)
  taskId_get {id t'} h := by
    by_cases hid : id = t.taskId
    · subst hid
      rw [Function.update_self] at h
      rw [Option.some.inj h]
    · rw [Function.update_of_ne hid] at h
      exact w.taskId_get h

@[simp] theorem get_set_self {w : Writes} {t : WorkTask} : (w.set t).get t.taskId = some t :=
  Function.update_self ..

theorem get_set_ne {w : Writes} {t : WorkTask} {id : TaskId} (h : id ≠ t.taskId) :
    (w.set t).get id = w.get id :=
  Function.update_of_ne h ..

end Writes

/-- The rows a transaction sees: the committed ones under its own versions. -/
def overlay (b : Board) (w : Writes) : Board :=
  b.mapRows (fun t => (w.get t.taskId).getD t) fun t => by
    cases h : w.get t.taskId with
    | none => rfl
    | some t' => exact w.taskId_get h

theorem get?_overlay {b : Board} {w : Writes} {id : TaskId} :
    (overlay b w).get? id = (b.get? id).map fun t => (w.get id).getD t := by
  rw [overlay, Table.get?_mapRows]
  cases h : b.get? id with
  | none => rfl
  | some t => rw [Option.map_some, Option.map_some, Table.key_of_get? h]

/-! ## Ticks -/

/-- Where a tick stands; `task` is the claimed row as `claim_next` returned it. -/
inductive Stage
  | opened
  | recovered
  | claimed (task : WorkTask)
  | running (task : WorkTask)
  | finished (task : WorkTask) (o : Outcome)
  | nothing
  | committed (task : WorkTask) (o : Outcome)
  | rolledBack
deriving DecidableEq, Repr

structure Tick where
  team : String
  role : Option String
  stage : Stage
  writes : Writes
  locks : List TaskId
  audits : List AuditEvent
  events : List CityEvent

/-- The transaction is not over. -/
def Tick.isOpen (tick : Tick) : Bool :=
  match tick.stage with
  | .opened | .recovered | .claimed _ | .running _ | .finished _ _ => true
  | .nothing | .committed _ _ | .rolledBack => false

/-- The task an open tick holds. -/
def Tick.task (tick : Tick) : Option WorkTask :=
  match tick.stage with
  | .claimed task | .running task | .finished task _ => some task
  | _ => none

/-- The tick just after its session was opened. -/
def Tick.new (team : String) (role : Option String) : Tick where
  team := team
  role := role
  stage := .opened
  writes := .empty
  locks := []
  audits := []
  events := []

/-- The transaction ends: its locks are released and its private rows are gone. -/
def Tick.close (tick : Tick) (stage : Stage) : Tick := { Tick.new tick.team tick.role with stage }

structure State where
  board : Board
  audits : List AuditEvent
  events : List CityEvent
  now : Time
  ticks : List Tick

/-- The rows tick `j` has locked. -/
def State.locksOf (s : State) (j : ℕ) : List TaskId := ((s.ticks[j]?).map Tick.locks).getD []

/-- A tick other than `i` has locked the row. -/
def State.LockedByOther (s : State) (i : ℕ) (id : TaskId) : Prop :=
  ∃ j < s.ticks.length, j ≠ i ∧ id ∈ s.locksOf j

instance (s : State) (i : ℕ) (id : TaskId) : Decidable (s.LockedByOther i id) :=
  inferInstanceAs (Decidable (∃ j < s.ticks.length, j ≠ i ∧ id ∈ s.locksOf j))

/-- The rows tick `tick` sees. -/
def State.view (s : State) (tick : Tick) : Board := overlay s.board tick.writes

/-- `recover_stale`: its `UPDATE` waits while a row it matches is locked by another tick. -/
def recoverStale (s : State) (i : ℕ) (tick : Tick) : Option Tick :=
  match tick.stage with
  | .opened =>
      let stale := s.board.rows.filter fun t => t.Stale tick.team s.now
      -- no SKIP LOCKED here: the statement is not over before the locks of the others are
      if stale.any fun t => s.LockedByOther i t.taskId then none
      else some { tick with
        stage := .recovered
        writes := .ofRows (stale.map WorkTask.requeue)
        locks := stale.map WorkTask.taskId }
  | _ => none

/-- The rows the claiming `SELECT … FOR UPDATE SKIP LOCKED` returns, and locks. -/
def claimRows (s : State) (i : ℕ) (tick : Tick) : List WorkTask :=
  (Board.queuedFor (s.view tick) tick.team tick.role).filter fun t => ¬ s.LockedByOther i t.taskId

/-- The rest of `claim_next`: the first of those rows is claimed; without one the tick returns and its
    session is closed without a commit. -/
def claimNext (s : State) (i : ℕ) (tick : Tick) : Option Tick :=
  match tick.stage with
  | .recovered =>
      let rows := claimRows s i tick
      match rows.head? with
      | none => some (tick.close .nothing)
      | some t => some { tick with
          stage := .claimed (t.claim s.now)
          writes := tick.writes.set (t.claim s.now)
          -- no LIMIT: all the rows returned stay locked, claimed or not
          locks := tick.locks ++ rows.map WorkTask.taskId }
  | _ => none

/-- `update_status` inside a tick. -/
def updateRow (s : State) (tick : Tick) (id : TaskId) (f : WorkTask → WorkTask) : Writes :=
  match (s.view tick).get? id with
  | none => tick.writes
  | some row => tick.writes.set (f row)

/-- The `claimed task` audit event and `mark_in_progress`. -/
def begin (s : State) (tick : Tick) : Option Tick :=
  match tick.stage with
  | .claimed task => some { tick with
      stage := .running task
      audits := tick.audits ++ [claimedAudit tick.team task]
      writes := updateRow s tick task.taskId WorkTask.markInProgress }
  | _ => none

/-- The run ends: `complete` or `fail`, the audit event and the city event. -/
def finish (s : State) (tick : Tick) (o : Outcome) : Option Tick :=
  match tick.stage with
  | .running task => some { tick with
      stage := .finished task o
      writes := updateRow s tick task.taskId (finishRow o s.now)
      audits := tick.audits ++ [terminalAudit tick.team task o]
      events := tick.events ++ [terminalEvent task o] }
  | _ => none

inductive Action
  | enqueue (taskId : TaskId) (team role subtask origin : String)
      (parentTaskId sessionId : Option String)
  | advance (elapsed : Time)
  | openTick (team : String) (role : Option String)
  | recover (i : ℕ)
  | claim (i : ℕ)
  | begin (i : ℕ)
  | finish (i : ℕ) (o : Outcome)
  | commit (i : ℕ)
  | crash (i : ℕ)
deriving DecidableEq, Repr

/-- A step of tick `i` that nobody else sees. -/
def State.move (s : State) (i : ℕ) (f : Tick → Option Tick) : Option State := do
  let tick ← s.ticks[i]?
  let tick' ← f tick
  return { s with ticks := s.ticks.set i tick' }

/-- `session.commit()` at the end of a tick. -/
def commit (s : State) (i : ℕ) : Option State := do
  let tick ← s.ticks[i]?
  match tick.stage with
  | .finished task o =>
      some { s with
        -- the private versions become the committed rows, and the locks go
        board := s.view tick
        audits := s.audits ++ tick.audits
        events := s.events ++ tick.events
        ticks := s.ticks.set i (tick.close (.committed task o)) }
  | _ => none

def step (s : State) : Action → Option State
  | .enqueue id team role subtask origin parent session =>
      let task := WorkTask.new id team role subtask origin parent session s.now
      if h : s.board.get? task.taskId = none then
        some { s with board := s.board.insert task h }
      else none
  | .advance elapsed => some { s with now := s.now + elapsed }
  | .openTick team role => some { s with ticks := s.ticks ++ [.new team role] }
  | .recover i => s.move i (recoverStale s i)
  | .claim i => s.move i (claimNext s i)
  | .begin i => s.move i (begin s)
  | .finish i o => s.move i fun tick => finish s tick o
  | .commit i => commit s i
  | .crash i => s.move i fun tick => if tick.isOpen then some (tick.close .rolledBack) else none

/-- Any board and any logs, and no tick yet. -/
def system : System State Action where
  init s := s.ticks = []
  step := step

end Persola.Workqueue.Ticks
