import Persola.Lib.Pool
import Persola.Workqueue.Ticks

/-!
# `Workqueue.Exclusion` — one tick to a task, one outcome to a task

A tick locks a row only while its committed version is unfinished, locks of different ticks are disjoint,
and a tick writes only rows it has locked. So the committed version of a locked row cannot change under
it, a finished row is never locked or written again, and a commit settles a task that nobody else has.
-/

namespace Persola.Workqueue.Ticks

open Runs

/-! ## What a tick carries -/

/-- What a tick has recorded and written at its stage. -/
def StageOk (tick : Tick) : Prop :=
  match tick.stage with
  | .opened | .recovered => tick.audits = [] ∧ tick.events = []
  | .claimed task =>
      tick.audits = [] ∧ tick.events = [] ∧ tick.writes.get task.taskId = some task
  | .running task =>
      tick.audits = [claimedAudit tick.team task] ∧ tick.events = [] ∧
        tick.writes.get task.taskId = some task.markInProgress
  | .finished task o =>
      tick.audits = [claimedAudit tick.team task, terminalAudit tick.team task o] ∧
        tick.events = [terminalEvent task o] ∧
        ∃ now, tick.writes.get task.taskId = some (finishRow o now task.markInProgress)
  | .nothing | .committed _ _ | .rolledBack => True

/-- A tick locks unfinished rows and writes only what it locked. -/
structure TickOk (b : Board) (tick : Tick) : Prop where
  locked : ∀ id ∈ tick.locks, ∃ t, b.get? id = some t ∧ ¬ t.Finished
  written : ∀ id t, tick.writes.get id = some t → id ∈ tick.locks
  stage : StageOk tick

variable {b : Board} {s t : State} {i : ℕ} {tick tick' : Tick}

theorem tickOk_new (team : String) (role : Option String) : TickOk b (.new team role) where
  locked _ h := absurd h List.not_mem_nil
  written _ _ h := by cases h
  stage := ⟨rfl, rfl⟩

/-- An ended tick holds and writes nothing. -/
theorem tickOk_close {stage : Stage} (h : (tick.close stage).isOpen = false) :
    TickOk b (tick.close stage) where
  locked _ h := absurd h List.not_mem_nil
  written _ _ h := by cases h
  stage := by
    cases stage with
    | nothing | committed | rolledBack => trivial
    | opened | recovered | claimed | running | finished => cases h

/-- Other commits and insertions that leave the locked rows alone leave the tick in order. -/
theorem TickOk.frame {b' : Board} (h : TickOk b tick)
    (hb : ∀ id ∈ tick.locks, b'.get? id = b.get? id) : TickOk b' tick where
  locked id hid := hb id hid ▸ h.locked id hid
  written := h.written
  stage := h.stage

/-- The task an open tick holds is one of its locked rows. -/
theorem TickOk.task_locked (h : TickOk b tick) {task : WorkTask} (ht : tick.task = some task) :
    task.taskId ∈ tick.locks := by
  have hs := h.stage
  unfold Tick.task at ht
  unfold StageOk at hs
  split at ht
  · next heq => cases ht; rw [heq] at hs; exact h.written _ _ hs.2.2
  · next heq => cases ht; rw [heq] at hs; exact h.written _ _ hs.2.2
  · next heq =>
      cases ht
      rw [heq] at hs
      obtain ⟨-, -, now, hw⟩ := hs
      exact h.written _ _ hw
  · cases ht

/-! ## The steps of a tick -/

/-- A row version a tick wrote is what it sees, if the row exists. -/
theorem view_of_written {r row : WorkTask} {id : TaskId} (hb : s.board.get? id = some r)
    (hw : tick.writes.get id = some row) : (s.view tick).get? id = some row := by
  rw [State.view, get?_overlay, hb, Option.map_some, hw, Option.getD_some]

/-- A status write on a row the tick has written replaces that version and no other. -/
theorem updateRow_get (h : TickOk s.board tick) {id : TaskId} {row : WorkTask}
    (hw : tick.writes.get id = some row) {f : WorkTask → WorkTask} (hf : (f row).taskId = row.taskId) :
    (updateRow s tick id f).get id = some (f row) ∧
      ∀ id' t, (updateRow s tick id f).get id' = some t → id' ∈ tick.locks := by
  obtain ⟨r, hr, -⟩ := h.locked id (h.written id row hw)
  have hid : row.taskId = id := tick.writes.taskId_get hw
  have hset : updateRow s tick id f = tick.writes.set (f row) := by
    simp only [updateRow, view_of_written hr hw]
  rw [hset]
  refine ⟨by rw [← hid, ← hf, Writes.get_set_self], fun id' t ht => ?_⟩
  by_cases heq : id' = (f row).taskId
  · rw [heq, hf, hid]
    exact h.written id row hw
  · rw [Writes.get_set_ne heq] at ht
    exact h.written id' t ht

/-- A tick that ends up holding only locks it had or nobody else has. -/
def OwnLocks (s : State) (i : ℕ) (tick tick' : Tick) : Prop :=
  ∀ id ∈ tick'.locks, id ∈ tick.locks ∨ ¬ s.LockedByOther i id

/-- The tick has not committed. -/
def Tick.Uncommitted (tick : Tick) : Prop := ∀ task o, tick.stage ≠ .committed task o

theorem recover_ok (h : recoverStale s i tick = some tick') (hok : TickOk s.board tick) :
    TickOk s.board tick' ∧ OwnLocks s i tick tick' ∧ tick'.Uncommitted := by
  unfold recoverStale at h
  split at h
  · next hst =>
      dsimp only at h
      split at h
      · cases h
      · next hany =>
          cases h
          have hs := hok.stage
          rw [StageOk, hst] at hs
          refine ⟨⟨?_, ?_, hs⟩, ?_, fun _ _ h => by cases h⟩
          · intro id hid
            obtain ⟨r, hr, rfl⟩ := List.mem_map.mp hid
            have hr' := List.mem_filter.mp hr
            exact ⟨r, Table.get?_key hr'.1, (of_decide_eq_true hr'.2).not_finished⟩
          · intro id t ht
            have hmem : t ∈ _ := List.mem_of_find?_eq_some ht
            obtain ⟨r, hr, rfl⟩ := List.mem_map.mp hmem
            have hid : r.requeue.taskId = id := Writes.taskId_get _ ht
            exact List.mem_map.mpr ⟨r, hr, hid⟩
          · intro id hid
            obtain ⟨r, hr, rfl⟩ := List.mem_map.mp hid
            right
            intro hlock
            exact hany (List.any_eq_true.mpr ⟨r, hr, decide_eq_true hlock⟩)
  · cases h

/-- A row the claim returns is queued in the tick's view, so its committed version is unfinished: it is
    the same row, or one the tick itself re-queued. -/
theorem claimRows_unfinished (hok : TickOk s.board tick) {r : WorkTask}
    (hr : r ∈ claimRows s i tick) :
    ∃ t, s.board.get? r.taskId = some t ∧ ¬ t.Finished := by
  obtain ⟨hq, -⟩ := List.mem_filter.mp hr
  obtain ⟨hmem, hqueued⟩ := Board.mem_queuedFor.mp hq
  have hget : (s.view tick).get? r.taskId = some r := Table.get?_key hmem
  rw [State.view, get?_overlay, Option.map_eq_some_iff] at hget
  obtain ⟨t, ht, hrt⟩ := hget
  refine ⟨t, ht, ?_⟩
  cases hw : tick.writes.get r.taskId with
  | none =>
      rw [hw, Option.getD_none] at hrt
      exact hrt ▸ hqueued.not_finished
  | some w =>
      obtain ⟨t', ht', hun⟩ := hok.locked _ (hok.written _ _ hw)
      exact Option.some.inj (ht'.symm.trans ht) ▸ hun

theorem claim_ok (h : claimNext s i tick = some tick') (hok : TickOk s.board tick) :
    TickOk s.board tick' ∧ OwnLocks s i tick tick' ∧ tick'.Uncommitted := by
  unfold claimNext at h
  split at h
  · next hst =>
      dsimp only at h
      split at h
      · cases h
        exact ⟨tickOk_close rfl, fun _ h => absurd h List.not_mem_nil, fun _ _ h => by cases h⟩
      · next r hr =>
          cases h
          have hs := hok.stage
          rw [StageOk, hst] at hs
          have hmem : r ∈ claimRows s i tick := List.mem_of_mem_head? hr
          refine ⟨⟨?_, ?_, hs.1, hs.2, Writes.get_set_self⟩, ?_, fun _ _ h => by cases h⟩
          · intro id hid
            rcases List.mem_append.mp hid with hid | hid
            · exact hok.locked id hid
            · obtain ⟨r', hr', rfl⟩ := List.mem_map.mp hid
              exact claimRows_unfinished hok hr'
          · intro id t ht
            by_cases heq : id = (r.claim s.now).taskId
            · exact List.mem_append_right _ (List.mem_map.mpr ⟨r, hmem, heq.symm⟩)
            · dsimp only at ht
              rw [Writes.get_set_ne heq] at ht
              exact List.mem_append_left _ (hok.written id t ht)
          · intro id hid
            rcases List.mem_append.mp hid with hid | hid
            · exact Or.inl hid
            · obtain ⟨r', hr', rfl⟩ := List.mem_map.mp hid
              exact Or.inr (of_decide_eq_true (List.mem_filter.mp hr').2)
  · cases h

theorem begin_ok (h : begin s tick = some tick') (hok : TickOk s.board tick) :
    TickOk s.board tick' ∧ OwnLocks s i tick tick' ∧ tick'.Uncommitted := by
  unfold begin at h
  split at h
  · next task hst =>
      cases h
      have hs := hok.stage
      rw [StageOk, hst] at hs
      obtain ⟨haud, hev, hw⟩ := hs
      obtain ⟨hget, hlocks⟩ := updateRow_get hok hw WorkTask.markInProgress_taskId
      exact ⟨⟨hok.locked, hlocks, by simp [haud], hev, hget⟩, fun _ h => Or.inl h,
        fun _ _ h => by cases h⟩
  · cases h

theorem finish_ok {o : Outcome} (h : finish s tick o = some tick') (hok : TickOk s.board tick) :
    TickOk s.board tick' ∧ OwnLocks s i tick tick' ∧ tick'.Uncommitted := by
  unfold finish at h
  split at h
  · next task hst =>
      cases h
      have hs := hok.stage
      rw [StageOk, hst] at hs
      obtain ⟨haud, hev, hw⟩ := hs
      obtain ⟨hget, hlocks⟩ := updateRow_get hok hw (f := finishRow o s.now) finishRow_taskId
      exact ⟨⟨hok.locked, hlocks, by simp [haud], by simp [hev], s.now, hget⟩, fun _ h => Or.inl h,
        fun _ _ h => by cases h⟩
  · cases h

theorem crash_ok (h : (if tick.isOpen then some (tick.close .rolledBack) else none) = some tick') :
    TickOk s.board tick' ∧ OwnLocks s i tick tick' ∧ tick'.Uncommitted := by
  split at h
  · cases h
    exact ⟨tickOk_close rfl, fun _ h => absurd h List.not_mem_nil, fun _ _ h => by cases h⟩
  · cases h

/-! ## The invariant -/

/-- No row is locked by two ticks. -/
def Exclusive (ticks : List Tick) : Prop :=
  ∀ (i j : ℕ) (ti tj : Tick), i ≠ j → ticks[i]? = some ti → ticks[j]? = some tj → ∀ id ∈ ti.locks, id ∉ tj.locks

/-- A committed tick of this task and outcome is on record: its row is done with the response or failed with the
    text, the new audit events about the task are the claim and the outcome, and there is one city event about it. -/
def OnRecord (b : Board) (audits : List AuditEvent) (events : List CityEvent) (team : String) (task : WorkTask) :
    Outcome → Prop
  | .returned response =>
      (∃ now, b.get? task.taskId = some
        { task with status := .done, result := some response, completedAt := some now }) ∧
      audits.filter (·.taskId = some task.taskId) =
        [{ teamId := team, eventType := .statusChange, actor := task.role, summary := "claimed task " ++ task.taskId,
           taskId := some task.taskId, sessionId := task.sessionId },
         { teamId := team, eventType := .statusChange, actor := task.role, summary := "completed task " ++ task.taskId,
           taskId := some task.taskId, sessionId := some (Py.orElse task.sessionId task.taskId) }] ∧
      events.filter (·.payload.taskId = task.taskId) =
        [⟨"workqueue.task.completed", task.taskId, task.teamId, task.role, truncate 500 task.subtask,
          some (truncate 1000 response), none⟩]
  | .raised text =>
      (∃ now, b.get? task.taskId = some
        { task with status := .failed, error := some text, completedAt := some now }) ∧
      audits.filter (·.taskId = some task.taskId) =
        [{ teamId := team, eventType := .statusChange, actor := task.role, summary := "claimed task " ++ task.taskId,
           taskId := some task.taskId, sessionId := task.sessionId },
         { teamId := team, eventType := .statusChange, actor := task.role,
           summary := "failed task " ++ task.taskId ++ ": " ++ text
           taskId := some task.taskId, sessionId := task.sessionId }] ∧
      events.filter (·.payload.taskId = task.taskId) =
        [⟨"workqueue.task.failed", task.taskId, task.teamId, task.role, truncate 500 task.subtask, none,
          some (truncate 1000 text)⟩]

/-- What a tick writes puts it on record. -/
theorem onRecord_iff {b : Board} {audits : List AuditEvent} {events : List CityEvent} {team : String}
    {task : WorkTask} {o : Outcome} : OnRecord b audits events team task o ↔
      (∃ now, b.get? task.taskId = some (finishRow o now task.markInProgress)) ∧
        audits.filter (·.taskId = some task.taskId) = [claimedAudit team task, terminalAudit team task o] ∧
        events.filter (·.payload.taskId = task.taskId) = [terminalEvent task o] := by
  cases o with
  | returned response => exact Iff.rfl
  | raised text => exact Iff.rfl

/-- The logs grew by entries about finished tasks, among them the records of all committed ticks. -/
structure LogOk (s₀ s : State) (audits : List AuditEvent) (events : List CityEvent) : Prop where
  audits_eq : s.audits = s₀.audits ++ audits
  events_eq : s.events = s₀.events ++ events
  audits_finished : ∀ e ∈ audits, ∃ id t, e.taskId = some id ∧ s.board.get? id = some t ∧ t.Finished
  events_finished : ∀ e ∈ events, ∃ t, s.board.get? e.payload.taskId = some t ∧ t.Finished
  record : ∀ (k : ℕ) (tick : Tick) task o, s.ticks[k]? = some tick → tick.stage = .committed task o →
    OnRecord s.board audits events tick.team task o
  once : ∀ (j k : ℕ) (tj tk : Tick) task task' o o', s.ticks[j]? = some tj → s.ticks[k]? = some tk →
    tj.stage = .committed task o → tk.stage = .committed task' o' → task.taskId = task'.taskId → j = k

structure Inv (s₀ s : State) : Prop where
  ticks : ∀ tick ∈ s.ticks, TickOk s.board tick
  exclusive : Exclusive s.ticks
  log : ∃ audits events, LogOk s₀ s audits events

theorem mem_locksOf {tick : Tick} (h : s.ticks[i]? = some tick) : s.locksOf i = tick.locks := by
  rw [State.locksOf, h, Option.map_some, Option.getD_some]

/-- Not locked by another tick, seen from the other tick. -/
theorem not_mem_locks {j : ℕ} {tj : Tick} {id : TaskId} (h : ¬ s.LockedByOther i id) (hij : j ≠ i)
    (hj : s.ticks[j]? = some tj) : id ∉ tj.locks := by
  intro hid
  refine h ⟨j, (List.getElem?_eq_some_iff.mp hj).1, hij, ?_⟩
  rw [mem_locksOf hj]
  exact hid

/-- A move of one tick that takes only free locks keeps the locks disjoint. -/
theorem Exclusive.set (h : Exclusive s.ticks) (hi : s.ticks[i]? = some tick)
    (hown : OwnLocks s i tick tick') : Exclusive (s.ticks.set i tick') := by
  have hfree : ∀ j tj, j ≠ i → s.ticks[j]? = some tj → ∀ id ∈ tick'.locks, id ∉ tj.locks := by
    intro j tj hji hj id hid
    rcases hown id hid with hid | hid
    · exact h i j tick tj hji.symm hi hj id hid
    · exact not_mem_locks hid hji hj
  intro j k tj tk hjk hj hk id hid hid'
  rw [List.getElem?_set] at hj hk
  split at hj
  · next hij =>
      subst hij
      rw [if_neg hjk] at hk
      split at hj <;> cases hj
      exact hfree k tk hjk.symm hk id hid hid'
  · next hij =>
      split at hk
      · next hik =>
          subst hik
          split at hk <;> cases hk
          exact hfree j tj hjk hj id hid' hid
      · exact h j k tj tk hjk hj hk id hid hid'

theorem getElem?_set_cases {j : ℕ} {tj : Tick} (h : (s.ticks.set i tick')[j]? = some tj) :
    (j = i ∧ tj = tick') ∨ (j ≠ i ∧ s.ticks[j]? = some tj) := by
  rw [List.getElem?_set] at h
  split at h
  · next hij =>
      split at h <;> cases h
      exact Or.inl ⟨hij.symm, rfl⟩
  · next hij => exact Or.inr ⟨fun he => hij he.symm, h⟩

/-- A private step of a tick keeps the invariant. -/
theorem Inv.move {s₀ : State} (h : Inv s₀ s) (hi : s.ticks[i]? = some tick)
    (hok : TickOk s.board tick' ∧ OwnLocks s i tick tick' ∧ tick'.Uncommitted) :
    Inv s₀ { s with ticks := s.ticks.set i tick' } := by
  obtain ⟨htick, hown, hun⟩ := hok
  obtain ⟨audits, events, hlog⟩ := h.log
  refine ⟨Pool.forall_set h.ticks htick, h.exclusive.set hi hown, audits, events,
    hlog.audits_eq, hlog.events_eq, hlog.audits_finished, hlog.events_finished, ?_, ?_⟩
  · intro k tk task o hk hst
    rcases getElem?_set_cases hk with ⟨rfl, rfl⟩ | ⟨-, hk⟩
    · exact absurd hst (hun task o)
    · exact hlog.record k tk task o hk hst
  · intro j k tj tk task task' o o' hj hk hst hst' hid
    rcases getElem?_set_cases hj with ⟨rfl, rfl⟩ | ⟨-, hj⟩
    · exact absurd hst (hun task o)
    · rcases getElem?_set_cases hk with ⟨rfl, rfl⟩ | ⟨-, hk⟩
      · exact absurd hst' (hun task' o')
      · exact hlog.once j k tj tk task task' o o' hj hk hst hst' hid

/-! ## The commit -/

/-- A commit changes no row that the tick has not locked. -/
theorem view_get?_of_not_locked (hok : TickOk s.board tick) {id : TaskId} (h : id ∉ tick.locks) :
    (s.view tick).get? id = s.board.get? id := by
  have hw : tick.writes.get id = none := by
    cases hw : tick.writes.get id with
    | none => rfl
    | some t => exact absurd (hok.written id t hw) h
  rw [State.view, get?_overlay, hw]
  cases s.board.get? id <;> rfl

/-- In particular no finished row. -/
theorem view_get?_of_finished (hok : TickOk s.board tick) {id : TaskId} {t : WorkTask}
    (ht : s.board.get? id = some t) (hfin : t.Finished) : (s.view tick).get? id = some t := by
  rw [view_get?_of_not_locked hok, ht]
  intro hid
  obtain ⟨t', ht', hun⟩ := hok.locked id hid
  exact hun (Option.some.inj (ht'.symm.trans ht) ▸ hfin)

/-- Nothing has been recorded about a task that is not finished. -/
theorem LogOk.silent {s₀ : State} {audits : List AuditEvent} {events : List CityEvent}
    (h : LogOk s₀ s audits events) {id : TaskId} (hun : ∀ t, s.board.get? id = some t → ¬ t.Finished) :
    audits.filter (·.taskId = some id) = [] ∧ events.filter (·.payload.taskId = id) = [] := by
  refine ⟨List.filter_eq_nil_iff.mpr fun e he hid => ?_, List.filter_eq_nil_iff.mpr fun e he hid => ?_⟩
  · obtain ⟨id', t, hid', ht, hfin⟩ := h.audits_finished e he
    obtain rfl : id' = id := Option.some.inj (hid'.symm.trans (of_decide_eq_true hid))
    exact hun t ht hfin
  · obtain ⟨t, ht, hfin⟩ := h.events_finished e he
    exact hun t (of_decide_eq_true hid ▸ ht) hfin

/-- The records of earlier commits stay, and the one of this commit is added. -/
theorem LogOk.commit {s₀ : State} {audits : List AuditEvent} {events : List CityEvent}
    (h : LogOk s₀ s audits events) (hok : TickOk s.board tick) (hi : s.ticks[i]? = some tick)
    {task : WorkTask} {o : Outcome} (hst : tick.stage = .finished task o) :
    LogOk s₀ { s with
        board := s.view tick
        audits := s.audits ++ tick.audits
        events := s.events ++ tick.events
        ticks := s.ticks.set i (tick.close (.committed task o)) }
      (audits ++ tick.audits) (events ++ tick.events) := by
  have hs := hok.stage
  rw [StageOk, hst] at hs
  obtain ⟨haud, hev, now, hw⟩ := hs
  obtain ⟨r, hr, hrun⟩ := hok.locked _ (hok.written _ _ hw)
  have hrow : (s.view tick).get? task.taskId = some (finishRow o now task.markInProgress) :=
    view_of_written hr hw
  have hun : ∀ t, s.board.get? task.taskId = some t → ¬ t.Finished := by
    intro t ht
    rw [Option.some.inj (ht.symm.trans hr)]
    exact hrun
  -- what was finished before the commit is another task
  have hne : ∀ {id t}, s.board.get? id = some t → t.Finished → id ≠ task.taskId :=
    fun ht hfin hid => hun _ (hid ▸ ht) hfin
  obtain ⟨hnoAudits, hnoEvents⟩ := h.silent hun
  refine ⟨?_, ?_, ?_, ?_, ?_, ?_⟩
  · rw [h.audits_eq, List.append_assoc]
  · rw [h.events_eq, List.append_assoc]
  · intro e he
    rcases List.mem_append.mp he with he | he
    · obtain ⟨id, t, hid, ht, hfin⟩ := h.audits_finished e he
      exact ⟨id, t, hid, view_get?_of_finished hok ht hfin, hfin⟩
    · have hid : e.taskId = some task.taskId := by
        rw [haud] at he
        rcases List.mem_pair.mp he with rfl | rfl <;> rfl
      exact ⟨task.taskId, _, hid, hrow, finishRow_finished⟩
  · intro e he
    rcases List.mem_append.mp he with he | he
    · obtain ⟨t, ht, hfin⟩ := h.events_finished e he
      exact ⟨t, view_get?_of_finished hok ht hfin, hfin⟩
    · have hid : e.payload.taskId = task.taskId := by
        rw [hev, List.mem_singleton] at he
        rw [he]
        cases o <;> rfl
      exact ⟨_, hid ▸ hrow, finishRow_finished⟩
  · intro k tk task' o' hk hst'
    rcases getElem?_set_cases hk with ⟨rfl, rfl⟩ | ⟨-, hk⟩
    · cases hst'
      -- the commit at hand: its own entries are the only ones about its task
      refine onRecord_iff.mpr ⟨⟨now, hrow⟩, ?_, ?_⟩
      · rw [List.filter_append, haud, hnoAudits, List.nil_append]
        simp [claimedAudit, terminalAudit, Tick.close, Tick.new]
      · rw [List.filter_append, hev, hnoEvents, List.nil_append]
        cases o <;> simp [terminalEvent, recordCityEvent]
    · obtain ⟨⟨now', hrow'⟩, haud', hev'⟩ := onRecord_iff.mp (h.record k tk task' o' hk hst')
      -- an earlier commit: its task was finished before, so nothing is added about it
      have hid : task'.taskId ≠ task.taskId := hne hrow' finishRow_finished
      refine onRecord_iff.mpr ⟨⟨now', view_get?_of_finished hok hrow' finishRow_finished⟩, ?_, ?_⟩
      · rw [List.filter_append, haud', haud]
        simp [claimedAudit, terminalAudit, hid.symm]
      · rw [List.filter_append, hev', hev]
        cases o <;> simp [terminalEvent, recordCityEvent, hid.symm]
  · have hother : ∀ {k : ℕ} {tk : Tick} {task' o'}, s.ticks[k]? = some tk → tk.stage = .committed task' o' →
        task'.taskId ≠ task.taskId := by
      intro k tk task' o' hk hst'
      obtain ⟨⟨now', hrow'⟩, -, -⟩ := onRecord_iff.mp (h.record k tk task' o' hk hst')
      exact hne hrow' finishRow_finished
    intro j k tj tk a b o₁ o₂ hj hk hst₁ hst₂ hid
    rcases getElem?_set_cases hj with ⟨rfl, rfl⟩ | ⟨-, hj'⟩
    · rcases getElem?_set_cases hk with ⟨rfl, rfl⟩ | ⟨-, hk'⟩
      · rfl
      -- an earlier tick of the same task would have finished it
      · cases hst₁
        exact absurd hid.symm (hother hk' hst₂)
    · rcases getElem?_set_cases hk with ⟨rfl, rfl⟩ | ⟨-, hk'⟩
      · cases hst₂
        exact absurd hid (hother hj' hst₁)
      · exact h.once j k tj tk a b o₁ o₂ hj' hk' hst₁ hst₂ hid

theorem commit_eq_some (h : commit s i = some t) :
    ∃ tick task o, s.ticks[i]? = some tick ∧ tick.stage = .finished task o ∧
      t = { s with
        board := s.view tick
        audits := s.audits ++ tick.audits
        events := s.events ++ tick.events
        ticks := s.ticks.set i (tick.close (.committed task o)) } := by
  simp only [commit, Option.bind_eq_bind, Option.bind_eq_some_iff] at h
  obtain ⟨tick, hi, h⟩ := h
  split at h
  · next task o hst => exact ⟨tick, task, o, hi, hst, (Option.some.inj h).symm⟩
  · cases h

theorem move_eq_some {f : Tick → Option Tick} (h : s.move i f = some t) :
    ∃ tick tick', s.ticks[i]? = some tick ∧ f tick = some tick' ∧
      t = { s with ticks := s.ticks.set i tick' } := by
  simp only [State.move, Option.bind_eq_bind, Option.bind_eq_some_iff] at h
  obtain ⟨tick, hi, tick', hf, ht⟩ := h
  exact ⟨tick, tick', hi, hf, (Option.some.inj ht).symm⟩

theorem inv_commit {s₀ : State} (h : Inv s₀ s) (hstep : commit s i = some t) : Inv s₀ t := by
  obtain ⟨tick, task, o, hi, hst, rfl⟩ := commit_eq_some hstep
  have hok : TickOk s.board tick := h.ticks tick (List.mem_of_getElem? hi)
  obtain ⟨audits, events, hlog⟩ := h.log
  have hown : OwnLocks s i tick (tick.close (.committed task o)) :=
    fun _ hid => absurd hid List.not_mem_nil
  refine ⟨?_, h.exclusive.set hi hown, _, _, hlog.commit hok hi hst⟩
  intro tj hj
  obtain ⟨j, hj⟩ := List.mem_iff_getElem?.mp hj
  rcases getElem?_set_cases hj with ⟨rfl, rfl⟩ | ⟨hji, hj⟩
  · exact tickOk_close rfl
  -- the others have locked none of the rows this commit changes
  · refine (h.ticks tj (List.mem_of_getElem? hj)).frame fun id hid => ?_
    exact view_get?_of_not_locked hok (h.exclusive j i tj tick hji hj hi id hid)

/-! ## All steps -/

/-- New rows leave what is locked or finished alone. -/
theorem inv_enqueue {s₀ : State} (h : Inv s₀ s) {task : WorkTask}
    (hnew : s.board.get? task.taskId = none) :
    Inv s₀ { s with board := s.board.insert task hnew } := by
  have hkeep : ∀ {id t}, s.board.get? id = some t → (s.board.insert task hnew).get? id = some t :=
    fun ht => Table.get?_insert_of_some hnew ht
  obtain ⟨audits, events, hlog⟩ := h.log
  refine ⟨fun tick htick => ?_, h.exclusive, audits, events, hlog.audits_eq, hlog.events_eq,
    ?_, ?_, ?_, hlog.once⟩
  · have hok := h.ticks tick htick
    refine hok.frame fun id hid => ?_
    obtain ⟨t, ht, -⟩ := hok.locked id hid
    rw [ht]
    exact hkeep ht
  · intro e he
    obtain ⟨id, t, hid, ht, hfin⟩ := hlog.audits_finished e he
    exact ⟨id, t, hid, hkeep ht, hfin⟩
  · intro e he
    obtain ⟨t, ht, hfin⟩ := hlog.events_finished e he
    exact ⟨t, hkeep ht, hfin⟩
  · intro k tick task' o hk hst
    obtain ⟨⟨now, hrow⟩, hlogs⟩ := onRecord_iff.mp (hlog.record k tick task' o hk hst)
    exact onRecord_iff.mpr ⟨⟨now, hkeep hrow⟩, hlogs⟩

theorem inv_openTick {s₀ : State} (h : Inv s₀ s) (team : String) (role : Option String) :
    Inv s₀ { s with ticks := s.ticks ++ [.new team role] } := by
  have hold : ∀ {j : ℕ} {tj : Tick}, (s.ticks ++ [Tick.new team role])[j]? = some tj →
      s.ticks[j]? = some tj ∨ tj = .new team role := by
    intro j tj hj
    rw [List.getElem?_append] at hj
    split at hj
    · exact Or.inl hj
    · exact Or.inr (List.mem_singleton.mp (List.mem_of_getElem? hj))
  obtain ⟨audits, events, hlog⟩ := h.log
  refine ⟨fun tick htick => ?_, ?_, audits, events, hlog.audits_eq, hlog.events_eq,
    hlog.audits_finished, hlog.events_finished, ?_, ?_⟩
  · rcases List.mem_append.mp htick with htick | htick
    · exact h.ticks tick htick
    · rw [List.mem_singleton.mp htick]
      exact tickOk_new team role
  · intro j k tj tk hjk hj hk id hid hid'
    rcases hold hj with hj | rfl
    · rcases hold hk with hk | rfl
      · exact h.exclusive j k tj tk hjk hj hk id hid hid'
      · exact absurd hid' List.not_mem_nil
    · exact absurd hid List.not_mem_nil
  · intro k tick task o hk hst
    rcases hold hk with hk | rfl
    · exact hlog.record k tick task o hk hst
    · cases hst
  · intro j k tj tk task task' o o' hj hk hst hst' hid
    rcases hold hj with hj | rfl
    · rcases hold hk with hk | rfl
      · exact hlog.once j k tj tk task task' o o' hj hk hst hst' hid
      · cases hst'
    · cases hst

/-- **Step lemma**: every step keeps the invariant. -/
theorem inv_step {s₀ : State} (h : Inv s₀ s) {a : Action} (hstep : system.step s a = some t) :
    Inv s₀ t := by
  have hmem : ∀ {i : ℕ} {tick : Tick}, s.ticks[i]? = some tick → TickOk s.board tick :=
    fun hi => h.ticks _ (List.mem_of_getElem? hi)
  cases a with
  | enqueue id team role subtask origin parent session =>
      simp only [system, step] at hstep
      split at hstep <;> cases hstep
      exact inv_enqueue h _
  | advance elapsed =>
      cases hstep
      obtain ⟨audits, events, hlog⟩ := h.log
      exact ⟨h.ticks, h.exclusive, audits, events, hlog.audits_eq, hlog.events_eq,
        hlog.audits_finished, hlog.events_finished, hlog.record, hlog.once⟩
  | openTick team role => cases hstep; exact inv_openTick h team role
  | recover i =>
      obtain ⟨tick, tick', hi, hf, rfl⟩ := move_eq_some hstep
      exact h.move hi (recover_ok hf (hmem hi))
  | claim i =>
      obtain ⟨tick, tick', hi, hf, rfl⟩ := move_eq_some hstep
      exact h.move hi (claim_ok hf (hmem hi))
  | begin i =>
      obtain ⟨tick, tick', hi, hf, rfl⟩ := move_eq_some hstep
      exact h.move hi (begin_ok hf (hmem hi))
  | finish i o =>
      obtain ⟨tick, tick', hi, hf, rfl⟩ := move_eq_some (f := fun tick => finish s tick o) hstep
      exact h.move hi (finish_ok hf (hmem hi))
  | commit i => exact inv_commit h hstep
  | crash i =>
      obtain ⟨tick, tick', hi, hf, rfl⟩ := move_eq_some
        (f := fun tick => if tick.isOpen then some (tick.close .rolledBack) else none) hstep
      exact h.move hi (crash_ok hf)

theorem inv_init {s₀ : State} (h : system.init s₀) : Inv s₀ s₀ := by
  have hnil : s₀.ticks = [] := h
  refine ⟨fun tick htick => ?_, fun i j ti tj _ hi => ?_, [], [], by simp, by simp, by simp, by simp,
    fun k tick task o hk => ?_, fun j k tj tk task task' o o' hj => ?_⟩
  · rw [hnil] at htick; cases htick
  · rw [hnil] at hi; cases hi
  · rw [hnil] at hk; cases hk
  · rw [hnil] at hj; cases hj

/-! ## Finished rows and private steps -/

/-- Every finished row of `b` is a row of `b'`, unchanged. -/
def FinishedStay (b b' : Board) : Prop :=
  ∀ id row, b.get? id = some row → row.Finished → b'.get? id = some row

/-- The steps other than commits: the logs stay and the board at most gets a new row. -/
theorem step_private {a : Action} (hstep : system.step s a = some t) (ha : ∀ i, a ≠ .commit i) :
    t.audits = s.audits ∧ t.events = s.events ∧
      (t.board = s.board ∨ ∃ task hnew, t.board = s.board.insert task hnew) := by
  have hmove : ∀ {i f}, s.move i f = some t →
      t.audits = s.audits ∧ t.events = s.events ∧ t.board = s.board := by
    intro i f hm
    obtain ⟨tick, tick', -, -, rfl⟩ := move_eq_some hm
    exact ⟨rfl, rfl, rfl⟩
  cases a with
  | enqueue id team role subtask origin parent session =>
      simp only [system, step] at hstep
      split at hstep
      · next hnew => cases hstep; exact ⟨rfl, rfl, Or.inr ⟨_, hnew, rfl⟩⟩
      · cases hstep
  | advance | openTick => cases hstep; exact ⟨rfl, rfl, Or.inl rfl⟩
  | recover i | claim i | begin i | crash i =>
      obtain ⟨haud, hev, hb⟩ := hmove hstep
      exact ⟨haud, hev, Or.inl hb⟩
  | finish i o =>
      obtain ⟨haud, hev, hb⟩ := hmove (f := fun tick => finish s tick o) hstep
      exact ⟨haud, hev, Or.inl hb⟩
  | commit i => exact absurd rfl (ha i)

theorem finishedStay_step {s₀ : State} (h : Inv s₀ s) {a : Action} (hstep : system.step s a = some t) :
    FinishedStay s.board t.board := by
  intro id row hrow hfin
  by_cases hc : ∃ i, a = .commit i
  · obtain ⟨i, rfl⟩ := hc
    obtain ⟨tick, task, o, hi, -, rfl⟩ := commit_eq_some hstep
    exact view_get?_of_finished (h.ticks tick (List.mem_of_getElem? hi)) hrow hfin
  · obtain ⟨-, -, hb | ⟨task, hnew, hb⟩⟩ := step_private hstep fun i hi => hc ⟨i, hi⟩
    · rw [hb, hrow]
    · rw [hb]
      exact Table.get?_insert_of_some hnew hrow

/-! ## The guarantee -/

/-- What holds of a state `s` that ticks, enqueues and the clock reach from `s₀`. -/
structure Guarantee (s₀ s : State) : Prop where
  /-- No two open ticks hold the same task. -/
  exclusion : ∀ (i j : ℕ) (ti tj : Tick) a b, s.ticks[i]? = some ti → s.ticks[j]? = some tj →
    ti.task = some a → tj.task = some b → a.taskId = b.taskId → i = j
  /-- A task an open tick works on is not finished. -/
  unfinished : ∀ (i : ℕ) (ti : Tick) a, s.ticks[i]? = some ti → ti.task = some a →
    ∃ row, s.board.get? a.taskId = some row ∧ ¬ row.Finished
  /-- A finished task stays as it is in all that follows. -/
  final : ∀ t, system.Run always s t → FinishedStay s.board t.board
  /-- Every committed tick is on record in the board and, exactly once, in the logs. -/
  records : ∃ audits events, LogOk s₀ s audits events
  /-- Only a commit of a tick changes a row or a log. -/
  privacy : ∀ a t, system.step s a = some t → (∀ i, a ≠ .commit i) →
    t.audits = s.audits ∧ t.events = s.events ∧
      (t.board = s.board ∨ ∃ task hnew, t.board = s.board.insert task hnew)
  /-- A rolled-back tick leaves the board and the logs as they were. -/
  rollback : ∀ i t, system.step s (.crash i) = some t →
    t.board = s.board ∧ t.audits = s.audits ∧ t.events = s.events

/-- **Ticks exclude each other and settle each task once.** In every state reached from any board by any
    interleaving of ticks, enqueues and clock steps: no two open ticks hold the same task; a finished
    task is held by no tick and never changes again; each committed tick left its task done with the
    returned response or failed with the exception text, with exactly one claim event, one matching
    terminal event and one city event, and no two committed ticks had the same task; everything else a
    tick does before its commit is undone by a rollback. -/
theorem ticks_guarantee {s₀ s : State} (h₀ : system.init s₀) (h : system.Run always s₀ s) :
    Guarantee s₀ s := by
  have hinv : Inv s₀ s := h.invariant (fun _ _ _ hI _ hst => inv_step hI hst) (inv_init h₀)
  refine ⟨?_, ?_, ?_, hinv.log, fun _ _ => step_private, ?_⟩
  · intro i j ti tj a b hi hj ha hb hab
    by_contra hij
    -- both would have locked the row of the task
    have hla := (hinv.ticks ti (List.mem_of_getElem? hi)).task_locked ha
    have hlb := (hinv.ticks tj (List.mem_of_getElem? hj)).task_locked hb
    exact hinv.exclusive i j ti tj hij hi hj _ hla (hab ▸ hlb)
  · intro i ti a hi ha
    have hok := hinv.ticks ti (List.mem_of_getElem? hi)
    exact hok.locked _ (hok.task_locked ha)
  · intro t hrun
    exact hrun.rel (I := Inv s₀) (fun _ _ _ hrow _ => hrow)
      (fun _ _ _ h₁ h₂ id row hrow hfin => h₂ id row (h₁ id row hrow hfin) hfin)
      (fun _ _ _ hI _ hst => ⟨inv_step hI hst, finishedStay_step hI hst⟩) hinv
  · intro i t hstep
    obtain ⟨tick, tick', -, -, rfl⟩ := move_eq_some
      (f := fun tick => if tick.isOpen then some (tick.close .rolledBack) else none) hstep
    exact ⟨rfl, rfl, rfl⟩

/-! ## Two ticks over two tasks -/

def emptyBoard : State := ⟨⟨[], List.nodup_nil⟩, [], [], 0, []⟩

/-- One tick completes its task while another one claims after the first's commit and fails its own. -/
def twoTicks : List Action :=
  [.enqueue "t1" "default" "coordinator" "a" "user" none none,
   .enqueue "t2" "default" "coordinator" "b" "user" none none,
   .openTick "default" none, .openTick "default" none,
   .recover 0, .claim 0, .recover 1, .begin 0, .finish 0 (.returned "ok"), .commit 0,
   .claim 1, .begin 1, .finish 1 (.raised "boom"), .commit 1]

theorem guarantee_twoTicks :
    ∃ s, system.exec emptyBoard twoTicks = some s ∧
      s.board.rows.map (fun t => (t.status, t.result, t.error)) =
        [(.done, some "ok", none), (.failed, none, some "boom")] ∧
      s.audits.map (·.summary) =
        ["claimed task t1", "completed task t1", "claimed task t2", "failed task t2: boom"] ∧
      s.events.map (·.eventType) = ["workqueue.task.completed", "workqueue.task.failed"] ∧
      Guarantee emptyBoard s := by
  have hex : ((system.exec emptyBoard twoTicks).any fun s => decide (
      s.board.rows.map (fun t => (t.status, t.result, t.error)) =
        [(.done, some "ok", none), (.failed, none, some "boom")] ∧
      s.audits.map (·.summary) =
        ["claimed task t1", "completed task t1", "claimed task t2", "failed task t2: boom"] ∧
      s.events.map (·.eventType) = ["workqueue.task.completed", "workqueue.task.failed"])) = true := by
    decide +kernel
  obtain ⟨s, hrun, hs⟩ := System.exists_of_exec hex
  obtain ⟨hrows, haudits, hevents⟩ := of_decide_eq_true hs
  exact ⟨s, hrun, hrows, haudits, hevents, ticks_guarantee rfl (System.run_of_exec hrun)⟩

end Persola.Workqueue.Ticks
