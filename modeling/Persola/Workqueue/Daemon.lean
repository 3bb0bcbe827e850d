import Persola.Workqueue.Forced
import Mathlib.Data.List.Count

/-!
# `Workqueue.Daemon` — the queue as a service

A team's daemon (`run_forever`) works the board of its team round after round, while the API enqueues tasks and forces
ticks for any team; here each of these is over before the next begins (`Workqueue.Ticks` has ticks that overlap). Every
tick takes a task that is not finished and leaves it finished, and nothing else finishes or changes a finished one
(`tick_finished_iff`). So over any run each task is worked at most once, the logs are those of what was done, and the
finished tasks are the ones that were worked and the ones that were finished before. What is queued for the daemon waits
only for the tasks that are not younger (`served`).
-/

namespace Persola.Workqueue.Daemon

open Ticks Forced

/-- A `TaskQueueWorker` and the arguments of its `run_forever`. -/
structure Worker where
  team : String := "default"
  role : Option String := none
  pollInterval : ℚ := 2

/-- What was done: a request put a task on the board, or a tick worked one, while its run recorded what it did. -/
inductive Done where
  | posted (d : Delegated)
  | worked (t : WorkTask) (told : List AuditEvent)

/-- The task that a tick returned. -/
def Done.task? : Done → Option WorkTask
  | .posted _ => none
  | .worked t _ => some t

/-- The tables, what was done so far, how long the daemon slept after each round, and whether it was told to stop. -/
structure World where
  store : Store
  done : List Done := []
  sleeps : List ℚ := []
  stopped : Bool := false

/-- What the ticks returned so far. -/
def World.worked (w : World) : List WorkTask := w.done.filterMap Done.task?

/-- A task is enqueued, a tick is forced, the daemon goes through its loop once more or is told to stop. -/
inductive Action where
  | enqueue (d : Delegated)
  | force (taskId : TaskId) (team : String) (c : Circumstances)
  | round (c : Circumstances)
  | stop

/-- The audit event of `enqueue_task`. -/
def instructedAudit (d : Delegated) : AuditEvent where
  teamId := d.teamId
  eventType := .instruction
  actor := d.origin
  recipient := some d.role
  summary := truncate 280 d.subtask
  taskId := some d.taskId
  sessionId := d.sessionId

/-- `enqueue_task`, for a role that was given or found at the top of the chart. -/
def World.post (w : World) (d : Delegated) : World :=
  match w.store.board.get? d.task.taskId with
  -- the insert fails, and nothing is committed
  | some _ => w
  | none =>
      { w with
        store := { w.store with
          board := Forced.enqueue w.store.board d
          audits := w.store.audits ++ [instructedAudit d] }
        done := w.done ++ [.posted d] }

/-- A tick by anybody. -/
def World.tick (w : World) (team : String) (role : Option String) (c : Circumstances) : World :=
  let (store, task) := Forced.tick w.store team role c
  { w with store, done := w.done ++ task.toList.map (.worked · c.told) }

/-- The body of the loop of `run_forever`. -/
def World.round (worker : Worker) (w : World) (c : Circumstances) : World :=
  if w.stopped then w
  else if ¬ c.available then { w with sleeps := w.sleeps ++ [worker.pollInterval] }
  else
    let claimed := (Forced.tick w.store worker.team worker.role c).2.isSome
    let w := w.tick worker.team worker.role c
    { w with sleeps := w.sleeps ++ [if claimed then 0 else worker.pollInterval] }

/-- `tick_single_task` ticks unless it answers before that. -/
def World.force (w : World) (taskId : TaskId) (team : String) (c : Circumstances) : World :=
  match w.store.board.get? taskId with
  | none => w
  | some task => if task.status ≠ .queued ∨ ¬ c.available then w else w.tick team (some task.role) c

def step (worker : Worker) (w : World) : Action → World
  | .enqueue d => w.post d
  | .force taskId team c => w.force taskId team c
  | .round c => w.round worker c
  | .stop => { w with stopped := true }

/-- A run from a store, the loop just begun. -/
def run (worker : Worker) (s : Store) (actions : List Action) : World := actions.foldl (step worker) ⟨s, [], [], false⟩

/-- What a finished task tells about its run. -/
def outcomeOf (t : WorkTask) : Outcome :=
  if t.status = .done then .returned (t.result.getD "") else .raised (t.error.getD "")

section
variable {w : World} {team : String} {role : Option String} {c : Circumstances} {d : Delegated}

@[simp] theorem worked_tick :
    (w.tick team role c).worked = w.worked ++ (Forced.tick w.store team role c).2.toList := by
  show (w.done ++ (Forced.tick w.store team role c).2.toList.map (Done.worked · c.told)).filterMap Done.task? = _
  rw [List.filterMap_append]
  cases (Forced.tick w.store team role c).2 <;> rfl

/-- A task is posted if its id is new. -/
theorem post_cases : w.post d = w ∨
    w.post d = { w with
      store := { w.store with
        board := enqueue w.store.board d
        audits := w.store.audits ++ [instructedAudit d] }
      done := w.done ++ [.posted d] } := by
  unfold World.post
  split
  · exact .inl rfl
  · exact .inr rfl

@[simp] theorem worked_post : (w.post d).worked = w.worked := by
  rcases post_cases (w := w) (d := d) with h | h
  · rw [h]
  · rw [h]
    exact List.filterMap_append.trans (List.append_nil _)

@[simp] theorem stopped_post : (w.post d).stopped = w.stopped := by
  rcases post_cases (w := w) (d := d) with h | h <;> rw [h]

end

/-! ## One tick -/

section
variable {s : Store} {b : Board} {team : String} {role : Option String} {c : Circumstances} {x t : WorkTask}

/-- The task that a tick claimed, as it leaves it. -/
def workedBy (team : String) (c : Circumstances) (x : WorkTask) : WorkTask :=
  finishRow c.outcome c.finishedAt ((Board.recovered team c.recoveredAt x).claim c.claimedAt).markInProgress

theorem enqueue_rows (b : Board) (d : Delegated) :
    ∃ extra, (enqueue b d).rows = b.rows ++ extra ∧ ∀ t ∈ extra, t = d.task := by
  unfold enqueue
  split
  · exact ⟨[d.task], rfl, fun t ht => List.mem_singleton.mp ht⟩
  · exact ⟨[], (List.append_nil _).symm, fun t ht => absurd ht List.not_mem_nil⟩

/-- Posting leaves the tasks that are there. -/
theorem post_rows {w : World} {d : Delegated} :
    ∃ extra, (w.post d).store.board.rows = w.store.board.rows ++ extra ∧ ∀ t ∈ extra, t = d.task := by
  rcases post_cases (w := w) (d := d) with h | h
  · rw [h]
    exact ⟨[], (List.append_nil _).symm, fun t ht => absurd ht List.not_mem_nil⟩
  · rw [h]
    exact enqueue_rows w.store.board d

theorem delegate_rows (b : Board) (ds : List Delegated) :
    ∃ extra, (ds.foldl enqueue b).rows = b.rows ++ extra ∧ ∀ t ∈ extra, ∃ d ∈ ds, t = d.task := by
  induction ds generalizing b with
  | nil => exact ⟨[], (List.append_nil _).symm, fun t ht => absurd ht List.not_mem_nil⟩
  | cons d ds ih =>
      obtain ⟨first, hfirst, hd⟩ := enqueue_rows b d
      obtain ⟨rest, hrest, hds⟩ := ih (enqueue b d)
      refine ⟨first ++ rest, ?_, fun t ht => ?_⟩
      · rw [List.foldl_cons, hrest, hfirst, List.append_assoc]
      · rcases List.mem_append.mp ht with ht | ht
        · exact ⟨d, List.mem_cons_self, hd t ht⟩
        · obtain ⟨d', hd', heq⟩ := hds t ht
          exact ⟨d', List.mem_cons_of_mem _ hd', heq⟩

@[simp] theorem workedBy_taskId : (workedBy team c x).taskId = x.taskId := by
  rw [workedBy, finishRow_taskId]
  exact Board.recovered_taskId

/-- A write to a task that is there leaves the rows after them. -/
theorem modify_append {taskId : TaskId} {f : WorkTask → WorkTask} {hf : ∀ t, (f t).taskId = t.taskId}
    {b b' : Board} {extra : List WorkTask} (hrows : b'.rows = b.rows ++ extra)
    (hid : taskId ∈ b.rows.map WorkTask.taskId) :
    (b'.modify taskId f hf).rows = b.rows.map (fun t => if t.taskId = taskId then f t else t) ++ extra := by
  have hnodup := b'.nodup
  rw [hrows, List.map_append] at hnodup
  have hother (t : WorkTask) (ht : t ∈ extra) : t.taskId ≠ taskId := fun heq =>
    (List.disjoint_of_nodup_append hnodup) hid (heq ▸ List.mem_map_of_mem ht)
  show b'.rows.map _ = _
  rw [hrows, List.map_append]
  refine congrArg _ ?_
  calc extra.map (fun t => if t.taskId = taskId then f t else t)
      = extra.map id := List.map_congr_left fun t ht => if_neg (hother t ht)
    _ = extra := List.map_id _

/-- **A tick that claims**: the tables it leaves and what it returns. -/
theorem tick_spec (h : Board.oldestClaimable s.board team role c.recoveredAt = some x) :
    ∃ (b' : Board) (extra : List WorkTask), Forced.tick s team role c =
        (⟨b', s.audits ++ claimedAudit team x :: (c.told ++ [terminalAudit team x c.outcome]),
          s.events ++ [terminalEvent x c.outcome]⟩, some (workedBy team c x)) ∧
      b'.rows = s.board.rows.map (fun t =>
        if t.taskId = x.taskId then workedBy team c x else Board.recovered team c.recoveredAt t) ++ extra ∧
      ∀ t ∈ extra, ∃ d ∈ c.delegated, t = d.task := by
  have hx : x ∈ s.board.rows := (Board.oldestClaimable_eq_some_iff.mp h).mem
  have hreturned : (Board.claimNext s.board team role c.recoveredAt c.claimedAt).2 =
      some ((Board.recovered team c.recoveredAt x).claim c.claimedAt) := by
    rw [Board.claimNext_returns, h]
    rfl
  have hclaimed := @Board.claimNext_rows s.board team role c.recoveredAt c.claimedAt
  rw [h] at hclaimed
  cases hpair : Board.claimNext s.board team role c.recoveredAt c.claimedAt with
  | mk claimed task =>
  rw [hpair] at hreturned hclaimed
  obtain rfl : task = _ := hreturned
  have hid : ((Board.recovered team c.recoveredAt x).claim c.claimedAt).taskId = x.taskId := Board.recovered_taskId
  let working : Board := claimed.modify x.taskId (·.markInProgress) fun _ => WorkTask.markInProgress_taskId
  have hworking : working.rows = s.board.rows.map fun t =>
      if t.taskId = x.taskId then ((Board.recovered team c.recoveredAt x).claim c.claimedAt).markInProgress
      else Board.recovered team c.recoveredAt t := by
    show claimed.rows.map _ = _
    rw [hclaimed, List.map_map]
    refine List.map_congr_left fun t ht => ?_
    by_cases heq : t.taskId = x.taskId
    · obtain rfl := List.inj_on_of_nodup_map s.board.nodup ht hx heq
      simp [Board.recovered_taskId]
    · have hne : ¬ x.taskId = t.taskId := Ne.symm heq
      simp [heq, hne, Board.recovered_taskId]
  obtain ⟨extra, hextra, hdelegated⟩ := delegate_rows working c.delegated
  have hin : x.taskId ∈ working.rows.map WorkTask.taskId := by
    rw [hworking, List.map_map]
    refine List.mem_map.mpr ⟨x, hx, ?_⟩
    simp [Board.recovered_taskId]
  have hrows := @modify_append _ (finishRow c.outcome c.finishedAt) (fun _ => finishRow_taskId) _ _ _ hextra hin
  rw [hworking, List.map_map] at hrows
  have hdone : ((c.delegated.foldl enqueue working).modify x.taskId (finishRow c.outcome c.finishedAt)
      fun _ => finishRow_taskId).rows = s.board.rows.map (fun t =>
        if t.taskId = x.taskId then workedBy team c x else Board.recovered team c.recoveredAt t) ++ extra := by
    rw [hrows]
    refine congrArg (· ++ extra) (List.map_congr_left fun t ht => ?_)
    by_cases heq : t.taskId = x.taskId
    · simp [heq, workedBy, Board.recovered_taskId]
    · simp [heq, Board.recovered_taskId]
  have hmem : workedBy team c x ∈ ((c.delegated.foldl enqueue working).modify x.taskId
      (finishRow c.outcome c.finishedAt) fun _ => finishRow_taskId).rows := by
    rw [hdone]
    exact List.mem_append_left _ (List.mem_map.mpr ⟨x, hx, if_pos rfl⟩)
  refine ⟨_, extra, ?_, hdone, hdelegated⟩
  unfold Forced.tick
  rw [hpair]
  dsimp only
  rw [hid]
  have hget := Table.get?_key hmem
  rw [workedBy_taskId] at hget
  rw [hget]
  unfold Board.recovered
  split <;> rfl

theorem recovered_of_finished (h : t.Finished) : Board.recovered team c.recoveredAt t = t := by
  rw [Board.recovered, if_neg fun hstale => hstale.not_finished h]

theorem recovered_finished (h : (Board.recovered team c.recoveredAt t).Finished) : t.Finished := by
  unfold Board.recovered at h
  split at h
  · exact absurd h WorkTask.requeue_not_finished
  · exact h

theorem task_not_finished (d : Delegated) : ¬ d.task.Finished := by
  rintro (h | h) <;> cases h

/-- A task that awaits a claim is not over and not blocked. -/
theorem open_of_awaits {now : Time} (h : Board.Awaits team role now t) : ¬ t.Finished ∧ t.status ≠ .blocked := by
  obtain ⟨-, hqueued | ⟨-, hclaimed | hworking, -⟩, -⟩ := h
  · simp [WorkTask.Finished, hqueued]
  · simp [WorkTask.Finished, hclaimed]
  · simp [WorkTask.Finished, hworking]

/-- **A tick finishes the task it claimed and nothing else**, and the finished ones stay as they are. -/
theorem tick_finished_iff {b b' : Board} {extra : List WorkTask} (hx : x ∈ b.rows) (hopen : ¬ x.Finished)
    (hrows : b'.rows = b.rows.map (fun t =>
      if t.taskId = x.taskId then workedBy team c x else Board.recovered team c.recoveredAt t) ++ extra)
    (hextra : ∀ t ∈ extra, ∃ d ∈ c.delegated, t = d.task) (t : WorkTask) :
    (t ∈ b'.rows ∧ t.Finished) ↔ (t ∈ b.rows ∧ t.Finished) ∨ t = workedBy team c x := by
  rw [hrows]
  constructor
  · rintro ⟨hmem, hfinished⟩
    rcases List.mem_append.mp hmem with hmem | hmem
    · obtain ⟨y, hy, rfl⟩ := List.mem_map.mp hmem
      by_cases hid : y.taskId = x.taskId
      · exact .inr (if_pos hid)
      · rw [if_neg hid] at hfinished ⊢
        have hover := recovered_finished hfinished
        rw [recovered_of_finished hover]
        exact .inl ⟨hy, hover⟩
    · obtain ⟨d, -, rfl⟩ := hextra t hmem
      exact absurd hfinished (task_not_finished d)
  · rintro (⟨hmem, hfinished⟩ | rfl)
    · have hid : t.taskId ≠ x.taskId := by
        intro heq
        obtain rfl := List.inj_on_of_nodup_map b.nodup hmem hx heq
        exact hopen hfinished
      refine ⟨List.mem_append_left _ (List.mem_map.mpr ⟨t, hmem, ?_⟩), hfinished⟩
      rw [if_neg hid, recovered_of_finished hfinished]
    · exact ⟨List.mem_append_left _ (List.mem_map.mpr ⟨x, hx, if_pos rfl⟩), finishRow_finished⟩

end

/-! ## The books of a run -/

/-- The audit events that are left of what was done: the instruction, or the claim of the task, what its run recorded,
and how it ended. -/
def Done.audits : Done → List AuditEvent
  | .posted d => [instructedAudit d]
  | .worked t told => claimedAudit t.teamId t :: (told ++ [terminalAudit t.teamId t (outcomeOf t)])

/-- The city event that the work on a task leaves. -/
def eventOf (t : WorkTask) : CityEvent := terminalEvent t (outcomeOf t)

/-- **The books**: the finished tasks are those from before and those that were worked, each of them once; the audit log
is that of what was done, the city events are those of the tasks that were worked. -/
structure Books (s : Store) (w : World) : Prop where
  finished : ∀ t, (t ∈ w.store.board.rows ∧ t.Finished) ↔ (t ∈ s.board.rows ∧ t.Finished) ∨ t ∈ w.worked
  once : (w.worked.map WorkTask.taskId).Nodup
  new : ∀ t ∈ w.worked, ∀ y ∈ s.board.rows, y.Finished → y.taskId ≠ t.taskId
  audits : w.store.audits = s.audits ++ w.done.flatMap Done.audits
  events : w.store.events = s.events ++ w.worked.map eventOf

section
variable {worker : Worker} {s : Store} {w : World} {team : String} {role : Option String} {c : Circumstances}
  {x : WorkTask}

/-- The logs of a tick can be read off the task it leaves. -/
theorem logs_workedBy (hteam : x.teamId = team) :
    (Done.worked (workedBy team c x) c.told).audits =
        claimedAudit team x :: (c.told ++ [terminalAudit team x c.outcome]) ∧
      eventOf (workedBy team c x) = terminalEvent x c.outcome := by
  obtain rfl := hteam
  have houtcome : outcomeOf (workedBy x.teamId c x) = c.outcome := by
    unfold workedBy
    cases c.outcome with
    | returned response => rfl
    | raised text => rfl
  unfold Done.audits eventOf
  rw [houtcome]
  unfold workedBy Board.recovered
  by_cases hstale : x.Stale x.teamId c.recoveredAt
  · rw [if_pos hstale]
    cases c.outcome <;> exact ⟨rfl, rfl⟩
  · rw [if_neg hstale]
    cases c.outcome <;> exact ⟨rfl, rfl⟩

theorem Books.start (s : Store) : Books s ⟨s, [], [], false⟩ where
  finished _ := (or_iff_left List.not_mem_nil).symm
  once := List.nodup_nil
  new _ ht := absurd ht List.not_mem_nil
  audits := (List.append_nil _).symm
  events := (List.append_nil _).symm

/-- A tick keeps the books. -/
theorem Books.tick (h : Books s w) (team : String) (role : Option String) (c : Circumstances) :
    Books s (w.tick team role c) := by
  cases hnext : Board.oldestClaimable w.store.board team role c.recoveredAt with
  | none =>
      unfold World.tick
      rw [tick_of_none hnext]
      dsimp only
      rw [Option.toList_none, List.map_nil, List.append_nil]
      exact h
  | some x =>
      obtain ⟨b', extra, htick, hrows, hextra⟩ := tick_spec hnext
      have hturn := Board.oldestClaimable_eq_some_iff.mp hnext
      obtain ⟨haudits, hevent⟩ := @logs_workedBy team c x hturn.1.1
      have hiff := tick_finished_iff hturn.mem (open_of_awaits hturn.1).1 hrows hextra
      -- a row with the id of the claimed task is not finished
      have hfresh (t : WorkTask) (ht : t ∈ w.store.board.rows) (hfinished : t.Finished) : t.taskId ≠ x.taskId := by
        intro heq
        obtain rfl := List.inj_on_of_nodup_map w.store.board.nodup ht hturn.mem heq
        exact (open_of_awaits hturn.1).1 hfinished
      have hworked : (w.tick team role c).worked = w.worked ++ [workedBy team c x] := by
        rw [worked_tick, htick]
        rfl
      have hstore : (w.tick team role c).store = ⟨b', w.store.audits ++ claimedAudit team x ::
          (c.told ++ [terminalAudit team x c.outcome]), w.store.events ++ [terminalEvent x c.outcome]⟩ :=
        congrArg Prod.fst htick
      have hdone : (w.tick team role c).done = w.done ++ [.worked (workedBy team c x) c.told] := by
        unfold World.tick
        rw [htick]
        rfl
      constructor
      · intro t
        rw [hstore, hworked, hiff, h.finished, List.mem_append, List.mem_singleton, or_assoc]
      · rw [hworked, List.map_append, List.nodup_append]
        refine ⟨h.once, List.nodup_singleton _, fun id hid id' hid' => ?_⟩
        obtain ⟨t, ht, rfl⟩ := List.mem_map.mp hid
        obtain rfl := List.mem_singleton.mp hid'
        obtain ⟨hmem, hfinished⟩ := (h.finished t).mpr (.inr ht)
        rw [workedBy_taskId]
        exact hfresh t hmem hfinished
      · intro t ht y hy hfinished
        rw [hworked] at ht
        rcases List.mem_append.mp ht with ht | ht
        · exact h.new t ht y hy hfinished
        · rw [List.mem_singleton.mp ht, workedBy_taskId]
          exact hfresh y ((h.finished y).mpr (.inl ⟨hy, hfinished⟩)).1 hfinished
      · rw [hstore, hdone, List.flatMap_append, List.flatMap_singleton, haudits]
        dsimp only
        rw [h.audits, List.append_assoc]
      · rw [hstore, hworked, List.map_append, List.map_singleton, hevent]
        dsimp only
        rw [h.events, List.append_assoc]

/-- So does posting a task. -/
theorem Books.post (h : Books s w) (d : Delegated) : Books s (w.post d) := by
  obtain ⟨extra, hrows, hextra⟩ := post_rows (w := w) (d := d)
  constructor
  · intro t
    rw [worked_post, ← h.finished, hrows, List.mem_append]
    refine and_congr_left fun hfinished => or_iff_left fun hmem => ?_
    exact task_not_finished d (hextra t hmem ▸ hfinished)
  · rw [worked_post]
    exact h.once
  · rw [worked_post]
    exact h.new
  · rcases post_cases (w := w) (d := d) with heq | heq
    · rw [heq]
      exact h.audits
    · rw [heq, List.flatMap_append, List.flatMap_singleton]
      dsimp only
      rw [h.audits, List.append_assoc]
      rfl
  · rw [worked_post]
    rcases post_cases (w := w) (d := d) with heq | heq
    · rw [heq]
      exact h.events
    · rw [heq]
      exact h.events

theorem Books.step (h : Books s w) (a : Action) : Books s (step worker w a) := by
  cases a with
  | enqueue d => exact h.post d
  | force taskId team c =>
      show Books s (w.force taskId team c)
      unfold World.force
      cases w.store.board.get? taskId with
      | none => exact h
      | some task =>
          dsimp only
          split
          · exact h
          · exact h.tick team (some task.role) c
  | round c =>
      show Books s (w.round worker c)
      unfold World.round
      split
      · exact h
      · split
        · exact { h with }
        · exact { h.tick worker.team worker.role c with }
  | stop => exact { h with }

theorem Books.foldl (h : Books s w) (actions : List Action) : Books s (actions.foldl (Daemon.step worker) w) := by
  induction actions generalizing w with
  | nil => exact h
  | cons a actions ih => exact ih (h.step a)

/-- **Over any run every task is worked at most once, what is finished stays as it is, and the logs are those of what
was done.** -/
theorem books_run (worker : Worker) (s : Store) (actions : List Action) : Books s (run worker s actions) :=
  (Books.start s).foldl actions

end

/-! ## Whose turn comes -/

/-- A task of the daemon that is open and not younger than `x`. -/
def Ahead (worker : Worker) (x t : WorkTask) : Prop :=
  t.teamId = worker.team ∧ (∀ r ∈ worker.role, t.role = r) ∧ ¬ t.Finished ∧ t.status ≠ .blocked ∧
    t.createdAt ≤ x.createdAt

instance (worker : Worker) (x t : WorkTask) : Decidable (Ahead worker x t) :=
  inferInstanceAs (Decidable (_ ∧ _ ∧ _ ∧ _ ∧ _))

/-- How many there are. -/
def ahead (worker : Worker) (x : WorkTask) (b : Board) : ℕ := b.rows.countP fun t => Ahead worker x t

/-- What an action enqueues. -/
def Action.enqueued : Action → List Delegated
  | .enqueue d => [d]
  | .force _ _ c | .round c => c.delegated
  | .stop => []

def Action.isStop : Action → Bool
  | .stop => true
  | _ => false

/-- A round in which the provider is there. -/
def Action.isAvailableRound : Action → Bool
  | .round c => c.available
  | _ => false

/-- The rounds of a run in which the daemon looks at the board. -/
def availableRounds (actions : List Action) : ℕ :=
  (actions.takeWhile fun a => !a.isStop).countP Action.isAvailableRound

/-- `x` waits: it is queued for the daemon. -/
structure Waits (worker : Worker) (x : WorkTask) (b : Board) : Prop where
  mem : x ∈ b.rows
  queued : x.status = .queued
  team : x.teamId = worker.team
  role : ∀ r ∈ worker.role, x.role = r

section
variable {worker : Worker} {s : Store} {w : World} {b : Board} {team : String} {role : Option String}
  {c : Circumstances} {x t : WorkTask}

theorem countP_lt {α : Type*} {p q : α → Bool} {l : List α} {t : α} (hpq : ∀ t ∈ l, q t = true → p t = true)
    (ht : t ∈ l) (hp : p t = true) (hq : q t = false) : l.countP q < l.countP p := by
  have hq' : l.countP q = (l.filter p).countP q := by
    rw [List.countP_filter]
    refine List.countP_congr fun t ht => ?_
    rw [Bool.and_eq_true]
    exact (and_iff_left_of_imp (hpq t ht)).symm
  rw [hq', List.countP_eq_length_filter (p := p), List.countP_lt_length_iff]
  exact ⟨t, List.mem_filter.mpr ⟨ht, hp⟩, by simp [hq]⟩

theorem ahead_recovered (h : Ahead worker x (Board.recovered team c.recoveredAt t)) : Ahead worker x t := by
  unfold Board.recovered at h
  split at h
  · next hstale =>
      obtain ⟨hteam, hrole, -, -, hle⟩ := h
      obtain ⟨-, hclaimed | hworking, -⟩ := hstale
      · exact ⟨hteam, hrole, by simp [WorkTask.Finished, hclaimed], by simp [hclaimed], hle⟩
      · exact ⟨hteam, hrole, by simp [WorkTask.Finished, hworking], by simp [hworking], hle⟩
  · exact h

theorem not_ahead_workedBy : ¬ Ahead worker x (workedBy team c t) := fun h => h.2.2.1 finishRow_finished

/-- Younger tasks are behind. -/
theorem not_ahead_extra {ds : List Delegated} {extra : List WorkTask} (hextra : ∀ t ∈ extra, ∃ d ∈ ds, t = d.task)
    (hlater : ∀ d ∈ ds, x.createdAt < d.now) : extra.countP (fun t => Ahead worker x t) = 0 := by
  refine List.countP_eq_zero.mpr fun t ht => ?_
  obtain ⟨d, hd, rfl⟩ := hextra t ht
  rw [decide_eq_true_eq]
  exact fun h => absurd h.2.2.2.2 (not_le.mpr (hlater d hd))

theorem Waits.awaits {now : Time} (hx : Waits worker x b) : Board.Awaits worker.team worker.role now x := by
  refine ⟨hx.team, .inl hx.queued, ?_⟩
  cases hr : worker.role with
  | none => exact .inl rfl
  | some r => exact .inr (congrArg some (hx.role r hr).symm)

/-- It is ahead of itself. -/
theorem Waits.ahead_pos (hx : Waits worker x b) : 0 < ahead worker x b := by
  refine List.countP_pos_iff.mpr ⟨x, hx.mem, decide_eq_true ?_⟩
  exact ⟨hx.team, hx.role, by simp [WorkTask.Finished, hx.queued], by simp [hx.queued], le_rfl⟩

/-- The task whose turn it is when `x` waits is ahead of it, or is it. -/
theorem ahead_of_next {now : Time} (hx : Waits worker x b) (hnext : Board.IsNext b worker.team worker.role now t) :
    Ahead worker x t := by
  have hawaits : Board.Awaits worker.team worker.role now x := hx.awaits
  obtain ⟨hopen, hblocked⟩ := open_of_awaits hnext.1
  obtain ⟨hteam, -, htrole⟩ := hnext.1
  refine ⟨hteam, fun r hr => ?_, hopen, hblocked, ?_⟩
  · rcases htrole with hnone | hsome
    · exact absurd (hnone ▸ hr) (by simp)
    · exact Option.some.inj (hsome.symm.trans hr)
  · obtain ⟨-, pre, post, hrows, hpre, hpost⟩ := hnext
    have hmem := hx.mem
    rw [hrows] at hmem
    rcases List.mem_append.mp hmem with hin | hin
    · exact (hpre x hin hawaits).le
    · rcases List.mem_cons.mp hin with rfl | hin
      · exact le_rfl
      · exact hpost x hin hawaits

/-- **One tick**: `x` is worked, or it waits on and no more tasks are ahead of it, one less if one of them was worked. -/
theorem waits_tick (hx : Waits worker x w.store.board) (hlater : ∀ d ∈ c.delegated, x.createdAt < d.now) :
    (∃ t ∈ (w.tick team role c).worked, t.taskId = x.taskId) ∨
      Waits worker x (w.tick team role c).store.board ∧
        ahead worker x (w.tick team role c).store.board +
            ((Board.oldestClaimable w.store.board team role c.recoveredAt).toList.countP fun t => Ahead worker x t) ≤
          ahead worker x w.store.board := by
  have hstore : (w.tick team role c).store = (Forced.tick w.store team role c).1 := rfl
  rw [worked_tick, hstore]
  cases hnext : Board.oldestClaimable w.store.board team role c.recoveredAt with
  | none =>
      rw [tick_of_none hnext]
      exact .inr ⟨hx, by simp⟩
  | some t =>
      obtain ⟨b', extra, htick, hrows, hextra⟩ := tick_spec hnext
      have ht := (Board.oldestClaimable_eq_some_iff.mp hnext).mem
      rw [htick]
      dsimp only
      by_cases heq : x.taskId = t.taskId
      · exact .inl ⟨workedBy team c t, List.mem_append_right _ (List.mem_singleton_self _),
          workedBy_taskId.trans heq.symm⟩
      · refine .inr ⟨{ hx with mem := ?_ }, ?_⟩
        · rw [hrows]
          refine List.mem_append_left _ (List.mem_map.mpr ⟨x, hx.mem, ?_⟩)
          have hfresh : ¬ x.Stale team c.recoveredAt := fun hstale => by simp [WorkTask.Stale, hx.queued] at hstale
          rw [if_neg heq, Board.recovered, if_neg hfresh]
        · unfold ahead
          rw [hrows, List.countP_append, not_ahead_extra hextra hlater, Nat.add_zero, List.countP_map]
          have hkeeps (y : WorkTask) (hy : Ahead worker x
              (if y.taskId = t.taskId then workedBy team c t else Board.recovered team c.recoveredAt y)) :
              y.taskId ≠ t.taskId ∧ Ahead worker x y := by
            split at hy
            · exact absurd hy not_ahead_workedBy
            · next hne => exact ⟨hne, ahead_recovered hy⟩
          by_cases hahead : Ahead worker x t
          · rw [Option.toList_some, List.countP_singleton, if_pos (decide_eq_true hahead)]
            refine countP_lt (fun y _ hy => ?_) ht (decide_eq_true hahead) ?_
            · exact decide_eq_true (hkeeps y (of_decide_eq_true hy)).2
            · exact decide_eq_false fun hy => (hkeeps t hy).1 rfl
          · rw [Option.toList_some, List.countP_singleton, if_neg (by simpa using hahead)]
            refine List.countP_mono_left fun y _ hy => ?_
            exact decide_eq_true (hkeeps y (of_decide_eq_true hy)).2

/-- **One action** other than a stop. -/
theorem waits_step {a : Action} (hx : Waits worker x w.store.board) (hgoes : w.stopped = false)
    (hstop : a.isStop = false) (hlater : ∀ d ∈ a.enqueued, x.createdAt < d.now) :
    (step worker w a).stopped = false ∧
    ((∃ t ∈ (step worker w a).worked, t.taskId = x.taskId) ∨
      Waits worker x (step worker w a).store.board ∧
        ahead worker x (step worker w a).store.board + (if a.isAvailableRound then 1 else 0) ≤
          ahead worker x w.store.board) := by
  cases a with
  | enqueue d =>
      show (w.post d).stopped = false ∧ ((∃ t ∈ (w.post d).worked, _) ∨
        Waits worker x (w.post d).store.board ∧ ahead worker x (w.post d).store.board + 0 ≤ _)
      refine ⟨stopped_post.trans hgoes, .inr ?_⟩
      obtain ⟨extra, hrows, hextra⟩ := post_rows (w := w) (d := d)
      have hcount := @not_ahead_extra worker x [d] extra (fun t ht => ⟨d, List.mem_singleton_self d, hextra t ht⟩) hlater
      refine ⟨{ hx with mem := ?_ }, ?_⟩
      · rw [hrows]
        exact List.mem_append_left _ hx.mem
      · rw [ahead, hrows, List.countP_append, hcount]
        exact le_rfl
  | force taskId team c =>
      show (w.force taskId team c).stopped = false ∧ ((∃ t ∈ (w.force taskId team c).worked, _) ∨
        Waits worker x (w.force taskId team c).store.board ∧ ahead worker x (w.force taskId team c).store.board + 0 ≤ _)
      unfold World.force
      cases w.store.board.get? taskId with
      | none => exact ⟨hgoes, .inr ⟨hx, le_rfl⟩⟩
      | some task =>
          dsimp only
          split
          · exact ⟨hgoes, .inr ⟨hx, le_rfl⟩⟩
          · refine ⟨hgoes, (waits_tick hx hlater).imp_right fun hwaits => ⟨hwaits.1, ?_⟩⟩
            exact (Nat.le_add_right _ _).trans hwaits.2
  | round c =>
      show (w.round worker c).stopped = false ∧ ((∃ t ∈ (w.round worker c).worked, _) ∨
        Waits worker x (w.round worker c).store.board ∧
          ahead worker x (w.round worker c).store.board + (if c.available then 1 else 0) ≤ _)
      unfold World.round
      rw [if_neg (by simp [hgoes])]
      by_cases havailable : c.available = true
      · rw [if_neg (not_not.mpr havailable), if_pos havailable]
        refine ⟨hgoes, (waits_tick hx hlater).imp_right fun hwaits => ⟨hwaits.1, ?_⟩⟩
        have hnext : ∃ t, Board.oldestClaimable w.store.board worker.team worker.role c.recoveredAt = some t ∧
            Ahead worker x t := by
          cases hnext : Board.oldestClaimable w.store.board worker.team worker.role c.recoveredAt with
          | none => exact absurd hx.awaits (Board.oldestClaimable_eq_none_iff.mp hnext x hx.mem)
          | some t => exact ⟨t, rfl, ahead_of_next hx (Board.oldestClaimable_eq_some_iff.mp hnext)⟩
        obtain ⟨t, hnext, hahead⟩ := hnext
        have hless := hwaits.2
        rwa [hnext, Option.toList_some, List.countP_singleton, if_pos (decide_eq_true hahead)] at hless
      · rw [if_pos havailable, if_neg havailable]
        exact ⟨hgoes, .inr ⟨{ hx with }, le_rfl⟩⟩
  | stop => cases hstop

theorem worked_step (a : Action) : ∃ more, (step worker w a).worked = w.worked ++ more := by
  cases a with
  | enqueue d => exact ⟨[], worked_post.trans (List.append_nil _).symm⟩
  | force taskId team c =>
      show ∃ more, (w.force taskId team c).worked = _
      unfold World.force
      split
      · exact ⟨[], (List.append_nil _).symm⟩
      · split
        · exact ⟨[], (List.append_nil _).symm⟩
        · exact ⟨_, worked_tick⟩
  | round c =>
      show ∃ more, (w.round worker c).worked = _
      unfold World.round
      split
      · exact ⟨[], (List.append_nil _).symm⟩
      · split
        · exact ⟨[], (List.append_nil _).symm⟩
        · exact ⟨_, worked_tick⟩
  | stop => exact ⟨[], (List.append_nil _).symm⟩

theorem worked_foldl (actions : List Action) (ht : t ∈ w.worked) : t ∈ (actions.foldl (step worker) w).worked := by
  induction actions generalizing w with
  | nil => exact ht
  | cons a actions ih =>
      obtain ⟨more, hmore⟩ := @worked_step worker w a
      refine ih ?_
      rw [hmore]
      exact List.mem_append_left _ ht

theorem served_foldl (actions : List Action) (hx : Waits worker x w.store.board) (hgoes : w.stopped = false)
    (hlater : ∀ a ∈ actions, ∀ d ∈ a.enqueued, x.createdAt < d.now)
    (hrounds : ahead worker x w.store.board ≤ availableRounds actions) :
    ∃ t ∈ (actions.foldl (step worker) w).worked, t.taskId = x.taskId := by
  induction actions generalizing w with
  | nil => exact absurd (hx.ahead_pos.trans_le hrounds) (Nat.lt_irrefl 0)
  | cons a actions ih =>
      have hpos := hx.ahead_pos
      obtain ⟨hnow, hlater⟩ := List.forall_mem_cons.mp hlater
      cases hstop : a.isStop with
      | true =>
          have hzero : availableRounds (a :: actions) = 0 := by simp [availableRounds, hstop]
          omega
      | false =>
          have hrounds' : availableRounds (a :: actions) =
              availableRounds actions + if a.isAvailableRound then 1 else 0 := by
            simp [availableRounds, hstop, List.countP_cons]
          obtain ⟨hgoes', ⟨t, ht, hid⟩ | ⟨hwaits, hless⟩⟩ := waits_step hx hgoes hstop hnow
          · exact ⟨t, worked_foldl actions ht, hid⟩
          · exact ih hwaits hgoes' hlater (by omega)

/-- **Nobody waits for younger tasks**: what is queued for the daemon is worked before it has looked at the board more
often than there are open tasks not younger, whatever else is enqueued, delegated or forced meanwhile. -/
theorem served (hx : Waits worker x s.board) (actions : List Action)
    (hlater : ∀ a ∈ actions, ∀ d ∈ a.enqueued, x.createdAt < d.now)
    (hrounds : ahead worker x s.board ≤ availableRounds actions) :
    ∃ t ∈ (run worker s actions).worked, t.taskId = x.taskId ∧ t.Finished ∧
      t ∈ (run worker s actions).store.board.rows := by
  have hbooks : Books s (run worker s actions) := (Books.start s).foldl actions
  have hstart : Waits worker x (World.mk s [] [] false).store.board := hx
  obtain ⟨t, ht, hid⟩ := served_foldl actions hstart rfl hlater hrounds
  obtain ⟨hmem, hfinished⟩ := (hbooks.finished t).mpr (.inr ht)
  exact ⟨t, ht, hid, hfinished, hmem⟩

end

/-- The younger of two tasks and one that comes while the daemon works. -/
theorem served_twoQueued :
    ∃ t ∈ (run {} ⟨Turns.twoQueued, [], []⟩
        [.enqueue { taskId := "t3", sessionId := none, now := 5 }, .round answered, .round answered]).worked,
      t.taskId = "t2" ∧ t.Finished ∧
        t ∈ (run {} ⟨Turns.twoQueued, [], []⟩
          [.enqueue { taskId := "t3", sessionId := none, now := 5 }, .round answered, .round answered]).store.board.rows :=
  served (x := .new "t2" "default" "coordinator" "and that" "user" none none 2)
    ⟨List.mem_cons_of_mem _ List.mem_cons_self, rfl, rfl, by simp⟩ _ (by simp [Action.enqueued, answered, WorkTask.new])
    (by decide +kernel)

end Persola.Workqueue.Daemon
