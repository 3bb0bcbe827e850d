import Persola.Workqueue.Rows

/-!
# `Workqueue.Turns` — whose turn it is on a board

One call of `AgentTaskQueue` after the other, for any teams and roles on one board. A claim re-queues the stale
claims of its team and takes the oldest task that is queued then, so a re-queued task is back at the place its age
gives it. A queued task that no status write names stays as it is until it is taken, and meanwhile no younger one of
its team and role is.
-/

namespace Persola.Workqueue

open Runs

/-! ## One claim -/

/-- `claim_next`: the board it leaves and the row it returns. It reads the clock twice. -/
def Board.claimNext (b : Board) (team : String) (role : Option String) (recoveredAt claimedAt : Time) :
    Board × Option WorkTask :=
  let board := Board.recoverStale b team recoveredAt
  match (Board.queuedFor board team role).head? with
  | none => (board, none)
  | some t =>
      (board.modify t.taskId (·.claim claimedAt) fun _ => WorkTask.claim_taskId, some (t.claim claimedAt))

namespace Board

/-- No two tasks were created at the same time. -/
def DistinctTimes (b : Board) : Prop := (b.rows.map WorkTask.createdAt).Nodup

instance (b : Board) : Decidable b.DistinctTimes := inferInstanceAs (Decidable (List.Nodup _))

/-- A claim or work of the team whose claim time is missing or more than 600 s old. -/
def Overdue (team : String) (now : Time) (t : WorkTask) : Prop :=
  t.teamId = team ∧ (t.status = .claimed ∨ t.status = .inProgress) ∧
    (t.claimedAt = none ∨ ∃ at', t.claimedAt = some at' ∧ 600 * 1000000 < now - at')

/-- What is queued for a claim once the overdue tasks are re-queued. -/
def Awaits (team : String) (role : Option String) (now : Time) (t : WorkTask) : Prop :=
  t.teamId = team ∧ (t.status = .queued ∨ Overdue team now t) ∧ (role = none ∨ role = some t.role)

/-- The task is older than the others that await the claim; at a tie the place in the table decides. -/
def IsNext (b : Board) (team : String) (role : Option String) (now : Time) (t : WorkTask) : Prop :=
  Awaits team role now t ∧ ∃ pre post, b.rows = pre ++ t :: post ∧
    (∀ x ∈ pre, Awaits team role now x → t.createdAt < x.createdAt) ∧
    ∀ x ∈ post, Awaits team role now x → t.createdAt ≤ x.createdAt

/-- **What a claim does**: which row it returns, which ones it re-queues, and that it leaves the others. -/
structure ClaimsOldest (b : Board) (team : String) (role : Option String) (recoveredAt claimedAt : Time)
    (b' : Board) (out : Option WorkTask) : Prop where
  nothing : out = none ↔ ∀ t ∈ b.rows, ¬ Awaits team role recoveredAt t
  oldest : ∀ taken, out = some taken → ∃ t ∈ b.rows, Awaits team role recoveredAt t ∧
    (∀ x ∈ b.rows, Awaits team role recoveredAt x → x ≠ t → t.createdAt < x.createdAt) ∧
    (Overdue team recoveredAt t → taken = { t with
      status := .claimed, error := some "re-queued: stale claim", claimedAt := some claimedAt }) ∧
    (¬ Overdue team recoveredAt t → taken = { t with status := .claimed, claimedAt := some claimedAt }) ∧
    taken ∈ b'.rows
  ids : b'.rows.map WorkTask.taskId = b.rows.map WorkTask.taskId
  requeued : ∀ t ∈ b.rows, out.map WorkTask.taskId ≠ some t.taskId → Overdue team recoveredAt t →
    { t with status := .queued, error := some "re-queued: stale claim" } ∈ b'.rows
  frame : ∀ t ∈ b.rows, out.map WorkTask.taskId ≠ some t.taskId → ¬ Overdue team recoveredAt t → t ∈ b'.rows

variable {b : Board} {team : String} {role : Option String} {now recoveredAt claimedAt : Time} {t : WorkTask}

theorem stale_iff_overdue : t.Stale team now ↔ Overdue team now t := by
  unfold WorkTask.Stale Overdue
  refine and_congr_right fun _ => and_congr_right fun _ => ?_
  cases t.claimedAt with
  | none => simp
  | some at' =>
      simp only [Option.mem_def, Option.some.injEq, forall_eq', reduceCtorEq, false_or, exists_eq_left',
        WorkTask.staleAfter]
      exact (Nat.lt_sub_iff_add_lt').symm

theorem recovered_of_overdue (h : Overdue team now t) :
    recovered team now t = { t with status := .queued, error := some "re-queued: stale claim" } :=
  if_pos (stale_iff_overdue.mpr h)

theorem recovered_of_fresh (h : ¬ Overdue team now t) : recovered team now t = t :=
  if_neg (mt stale_iff_overdue.mp h)

theorem claimable_iff_awaits : Claimable team role now t ↔ Awaits team role now t := by
  unfold Claimable Awaits
  rw [stale_iff_overdue]
  refine and_congr_right fun _ => and_congr_right fun _ => ?_
  cases role with
  | none => simp
  | some r => simp [eq_comm]

@[simp] theorem recovered_taskId : (recovered team now t).taskId = t.taskId := by
  unfold recovered
  split <;> rfl

@[simp] theorem recovered_createdAt : (recovered team now t).createdAt = t.createdAt := by
  unfold recovered
  split <;> rfl

/-- There is nothing to claim. -/
theorem oldestClaimable_eq_none_iff :
    oldestClaimable b team role now = none ↔ ∀ t ∈ b.rows, ¬ Awaits team role now t := by
  have hperm := Select.orderBy_perm WorkTask.createdAt (b.rows.filter fun t => Claimable team role now t)
  unfold oldestClaimable
  rw [List.head?_eq_none_iff, ← List.length_eq_zero_iff, hperm.length_eq, List.length_eq_zero_iff,
    List.filter_eq_nil_iff]
  simp only [decide_eq_true_eq, claimable_iff_awaits]

/-- **The claim picks the task whose turn it is.** -/
theorem oldestClaimable_eq_some_iff : oldestClaimable b team role now = some t ↔ IsNext b team role now t := by
  unfold oldestClaimable IsNext
  rw [Select.head?_orderBy_filter_iff]
  simp only [decide_eq_true_eq, claimable_iff_awaits]

theorem IsNext.mem (h : IsNext b team role now t) : t ∈ b.rows := by
  obtain ⟨-, pre, post, hrows, -⟩ := h
  rw [hrows]
  exact List.mem_append_right _ List.mem_cons_self

/-- Without ties the others are younger. -/
theorem IsNext.oldest (h : IsNext b team role now t) (hdistinct : b.DistinctTimes) {x : WorkTask} (hx : x ∈ b.rows)
    (hawaits : Awaits team role now x) (hne : x ≠ t) : t.createdAt < x.createdAt := by
  have ht := h.mem
  obtain ⟨-, pre, post, hrows, hpre, hpost⟩ := h
  have hsplit := hx
  rw [hrows] at hsplit
  rcases List.mem_append.mp hsplit with hbefore | hafter
  · exact hpre x hbefore hawaits
  · have hle := hpost x ((List.mem_cons.mp hafter).resolve_left hne) hawaits
    exact lt_of_le_of_ne hle fun heq => hne (List.inj_on_of_nodup_map hdistinct hx ht heq.symm)

/-- What a claim returns. -/
theorem claimNext_returns : (claimNext b team role recoveredAt claimedAt).2 =
    (oldestClaimable b team role recoveredAt).map fun t => (recovered team recoveredAt t).claim claimedAt := by
  unfold claimNext
  dsimp only
  rw [head?_queuedFor_recoverStale]
  cases oldestClaimable b team role recoveredAt with
  | none => rfl
  | some t => rfl

/-- What a claim makes of the rows. -/
theorem claimNext_rows : (claimNext b team role recoveredAt claimedAt).1.rows = b.rows.map fun t =>
    if (oldestClaimable b team role recoveredAt).map WorkTask.taskId = some t.taskId then
      (recovered team recoveredAt t).claim claimedAt
    else recovered team recoveredAt t := by
  unfold claimNext
  dsimp only
  rw [head?_queuedFor_recoverStale]
  cases oldestClaimable b team role recoveredAt with
  | none => rfl
  | some taken =>
      show (b.rows.map (recovered team recoveredAt)).map _ = _
      rw [List.map_map]
      refine List.map_congr_left fun t _ => ?_
      simp only [Function.comp_apply, Option.map_some, Option.some.injEq, recovered_taskId, eq_comm]

/-- The task a claim returns is the oldest claimable one. -/
theorem claimNext_takes : ((claimNext b team role recoveredAt claimedAt).2).map WorkTask.taskId =
    (oldestClaimable b team role recoveredAt).map WorkTask.taskId := by
  rw [claimNext_returns, Option.map_map]
  exact congrArg (Option.map · _) (funext fun t => recovered_taskId)

/-- A row that is not taken is as recovery leaves it. -/
theorem recovered_mem_claimNext (ht : t ∈ b.rows)
    (hother : ((claimNext b team role recoveredAt claimedAt).2).map WorkTask.taskId ≠ some t.taskId) :
    recovered team recoveredAt t ∈ (claimNext b team role recoveredAt claimedAt).1.rows := by
  rw [claimNext_takes] at hother
  rw [claimNext_rows]
  exact List.mem_map.mpr ⟨t, ht, if_neg hother⟩

/-- **One claim** on a board without ties. -/
theorem claimsOldest_claimNext (hdistinct : b.DistinctTimes) :
    ClaimsOldest b team role recoveredAt claimedAt (claimNext b team role recoveredAt claimedAt).1
      (claimNext b team role recoveredAt claimedAt).2 where
  nothing := by
    rw [claimNext_returns, Option.map_eq_none_iff, oldestClaimable_eq_none_iff]
  oldest taken htaken := by
    rw [claimNext_returns, Option.map_eq_some_iff] at htaken
    obtain ⟨t, hnext, rfl⟩ := htaken
    have hturn := oldestClaimable_eq_some_iff.mp hnext
    refine ⟨t, hturn.mem, hturn.1, fun x hx hawaits hne => hturn.oldest hdistinct hx hawaits hne, ?_, ?_, ?_⟩
    · intro hoverdue
      rw [recovered_of_overdue hoverdue]
      rfl
    · intro hfresh
      rw [recovered_of_fresh hfresh]
      rfl
    · rw [claimNext_rows]
      exact List.mem_map.mpr ⟨t, hturn.mem, if_pos (by rw [hnext]; rfl)⟩
  ids := by
    rw [claimNext_rows, List.map_map]
    refine List.map_congr_left fun t _ => ?_
    simp only [Function.comp_apply]
    split
    · exact recovered_taskId
    · exact recovered_taskId
  requeued t ht hother hoverdue := by
    have hmem := recovered_mem_claimNext ht hother
    rwa [recovered_of_overdue hoverdue] at hmem
  frame t ht hother hfresh := by
    have hmem := recovered_mem_claimNext ht hother
    rwa [recovered_of_fresh hfresh] at hmem

end Board

/-! ## Calls one after the other -/

namespace Turns

/-- A call of `AgentTaskQueue`, with what it reads off the clock. -/
inductive Call
  | enqueue (taskId : TaskId) (team role subtask origin : String) (parentTaskId sessionId : Option String)
      (now : Time)
  | claimNext (team : String) (role : Option String) (recoveredAt claimedAt : Time)
  | markInProgress (id : TaskId)
  | complete (id : TaskId) (result : String) (now : Time)
  | fail (id : TaskId) (error : String) (now : Time)
  | block (id : TaskId) (reason : String)
deriving DecidableEq, Repr

def step (b : Board) : Call → Option Board
  | .enqueue id team role subtask origin parent session now =>
      let task := WorkTask.new id team role subtask origin parent session now
      if h : b.get? task.taskId = none then some (b.insert task h) else none
  | .claimNext team role recoveredAt claimedAt => some (Board.claimNext b team role recoveredAt claimedAt).1
  | .markInProgress id => some (b.modify id (·.markInProgress) fun _ => WorkTask.markInProgress_taskId)
  | .complete id result now => some (b.modify id (·.complete result now) fun _ => WorkTask.complete_taskId)
  | .fail id error now => some (b.modify id (·.fail error now) fun _ => WorkTask.fail_taskId)
  | .block id reason => some (b.modify id (·.block reason) fun _ => WorkTask.block_taskId)

/-- Any board. -/
def system : System Board Call where
  init _ := True
  step := step

/-- The task a call writes a status to, other than by claiming it. -/
def Call.writes : Call → Option TaskId
  | .markInProgress id | .complete id _ _ | .fail id _ _ | .block id _ => some id
  | _ => none

/-- The task a call claims. -/
def takes (b : Board) : Call → Option TaskId
  | .claimNext team role recoveredAt claimedAt =>
      ((Board.claimNext b team role recoveredAt claimedAt).2).map WorkTask.taskId
  | _ => none

/-- Some call of the run takes the task. -/
def Taken (b : Board) (calls : List Call) (id : TaskId) : Prop :=
  ∃ pre call post s, calls = pre ++ call :: post ∧ system.exec b pre = some s ∧ takes s call = some id

section
variable {b b' s : Board} {call : Call} {calls : List Call} {x : WorkTask}

/-- A status write leaves the times of creation. -/
theorem createdAt_modify {id : TaskId} {f : WorkTask → WorkTask} {hf : ∀ t, (f t).taskId = t.taskId}
    (hcreated : ∀ t, (f t).createdAt = t.createdAt) :
    b.rows.map WorkTask.createdAt <+: (b.modify id f hf).rows.map WorkTask.createdAt := by
  have hsame : (b.modify id f hf).rows.map WorkTask.createdAt = b.rows.map WorkTask.createdAt := by
    show (b.rows.map _).map _ = _
    rw [List.map_map]
    refine List.map_congr_left fun t _ => ?_
    simp only [Function.comp_apply]
    split
    · exact hcreated t
    · rfl
  exact hsame ▸ List.prefix_refl _

/-- **Times of creation stay**; a new task adds its own. -/
theorem createdAt_step (h : system.step b call = some b') :
    b.rows.map WorkTask.createdAt <+: b'.rows.map WorkTask.createdAt := by
  cases call with
  | enqueue id team role subtask origin parent session now =>
      simp only [system, step] at h
      split at h <;> cases h
      show _ <+: (b.rows ++ [_]).map WorkTask.createdAt
      rw [List.map_append]
      exact List.prefix_append _ _
  | claimNext team role recoveredAt claimedAt =>
      cases h
      rw [Board.claimNext_rows, List.map_map]
      refine (List.map_congr_left fun t _ => ?_) ▸ List.prefix_refl _
      simp only [Function.comp_apply]
      split
      · exact Board.recovered_createdAt
      · exact Board.recovered_createdAt
  | markInProgress id =>
      cases h
      exact createdAt_modify fun _ => rfl
  | complete id result now =>
      cases h
      exact createdAt_modify fun _ => rfl
  | fail id error now =>
      cases h
      exact createdAt_modify fun _ => rfl
  | block id reason =>
      cases h
      exact createdAt_modify fun _ => rfl

/-- A board that ends without ties never had any. -/
theorem distinctTimes_of_exec (h : system.exec b calls = some b') (hdistinct : b'.DistinctTimes) :
    b.DistinctTimes := by
  induction calls generalizing b with
  | nil =>
      cases h
      exact hdistinct
  | cons call calls ih =>
      rw [System.exec, Option.bind_eq_some_iff] at h
      obtain ⟨s, hs, hrest⟩ := h
      exact (createdAt_step hs).sublist.nodup (ih hrest)

/-- A status write to another task leaves a row. -/
theorem mem_modify_of_ne {id : TaskId} {f : WorkTask → WorkTask} {hf : ∀ t, (f t).taskId = t.taskId}
    (hx : x ∈ b.rows) (hne : some id ≠ some x.taskId) : x ∈ (b.modify id f hf).rows :=
  List.mem_map.mpr ⟨x, hx, if_neg fun h => hne (congrArg some h.symm)⟩

/-- **A queued task waits**: a call that neither writes to it nor takes it leaves it as it is. -/
theorem waits_step (h : system.step b call = some b') (hx : x ∈ b.rows) (hqueued : x.status = .queued)
    (hwrites : call.writes ≠ some x.taskId) (htakes : takes b call ≠ some x.taskId) : x ∈ b'.rows := by
  cases call with
  | enqueue id team role subtask origin parent session now =>
      simp only [system, step] at h
      split at h <;> cases h
      exact List.mem_append_left _ hx
  | claimNext team role recoveredAt claimedAt =>
      cases h
      have hmem := Board.recovered_mem_claimNext hx htakes
      have hfresh : ¬ x.Stale team recoveredAt := fun hstale => by simp [WorkTask.Stale, hqueued] at hstale
      rwa [Board.recovered, if_neg hfresh] at hmem
  | markInProgress id =>
      cases h
      exact mem_modify_of_ne hx hwrites
  | complete id result now =>
      cases h
      exact mem_modify_of_ne hx hwrites
  | fail id error now =>
      cases h
      exact mem_modify_of_ne hx hwrites
  | block id reason =>
      cases h
      exact mem_modify_of_ne hx hwrites

/-- Along a run that never writes to a queued task, it stays as it is or is taken. -/
theorem waits_or_taken (h : system.exec b calls = some b') (hx : x ∈ b.rows) (hqueued : x.status = .queued)
    (hwrites : ∀ call ∈ calls, call.writes ≠ some x.taskId) : x ∈ b'.rows ∨ Taken b calls x.taskId := by
  induction calls generalizing b with
  | nil =>
      cases h
      exact .inl hx
  | cons call calls ih =>
      rw [System.exec, Option.bind_eq_some_iff] at h
      obtain ⟨s, hs, hrest⟩ := h
      by_cases htakes : takes b call = some x.taskId
      · exact .inr ⟨[], call, calls, b, rfl, rfl, htakes⟩
      · have hstays := waits_step hs hx hqueued (hwrites call List.mem_cons_self) htakes
        refine (ih hrest hstays fun c hc => hwrites c (List.mem_cons_of_mem _ hc)).imp_right ?_
        rintro ⟨pre, c, post, u, hcalls, hu, hc⟩
        exact ⟨call :: pre, c, post, u, by rw [hcalls]; rfl, by rw [System.exec_cons hs, hu], hc⟩

/-- A claim never returns a task while an older one of its team and role is queued. -/
theorem not_queued_of_claim {team : String} {role : Option String} {recoveredAt claimedAt : Time} {y : WorkTask}
    (hdistinct : b.DistinctTimes) (hy : (Board.claimNext b team role recoveredAt claimedAt).2 = some y)
    (hx : x ∈ b.rows) (hteam : x.teamId = y.teamId) (hrole : x.role = y.role) (hlt : x.createdAt < y.createdAt) :
    x.status ≠ .queued := by
  intro hqueued
  obtain ⟨t, -, hawaits, holdest, hoverdue, hfresh, -⟩ := (Board.claimsOldest_claimNext hdistinct).oldest y hy
  have hsame : y.teamId = t.teamId ∧ y.role = t.role ∧ y.createdAt = t.createdAt := by
    by_cases hstale : Board.Overdue team recoveredAt t
    · rw [hoverdue hstale]
      exact ⟨rfl, rfl, rfl⟩
    · rw [hfresh hstale]
      exact ⟨rfl, rfl, rfl⟩
  have hcreated : x.createdAt < t.createdAt := hlt.trans_eq hsame.2.2
  have hxteam : x.teamId = t.teamId := hteam.trans hsame.1
  have hxrole : x.role = t.role := hrole.trans hsame.2.1
  have hxawaits : Board.Awaits team role recoveredAt x :=
    ⟨hxteam.trans hawaits.1, .inl hqueued, by rw [hxrole]; exact hawaits.2.2⟩
  refine hcreated.not_gt (holdest x hx hxawaits ?_)
  rintro rfl
  exact lt_irrefl _ hcreated

end

/-- **Every claim of a run takes the oldest task, and a queued task is not overtaken**: while no other call writes
to it, a younger one of its team and role is taken only after it. -/
theorem claims_in_turn {b b' : Board} {calls : List Call} (h : system.exec b calls = some b')
    (hdistinct : b'.DistinctTimes) :
    (∀ pre team role recoveredAt claimedAt post s,
      calls = pre ++ .claimNext team role recoveredAt claimedAt :: post → system.exec b pre = some s →
      Board.ClaimsOldest s team role recoveredAt claimedAt (Board.claimNext s team role recoveredAt claimedAt).1
        (Board.claimNext s team role recoveredAt claimedAt).2) ∧
    ∀ pre mid team role recoveredAt claimedAt post s u,
      calls = pre ++ mid ++ .claimNext team role recoveredAt claimedAt :: post →
      system.exec b pre = some s → system.exec s mid = some u →
      ∀ y, (Board.claimNext u team role recoveredAt claimedAt).2 = some y →
      ∀ x ∈ s.rows, x.status = .queued → x.teamId = y.teamId → x.role = y.role → x.createdAt < y.createdAt →
        (∀ call ∈ mid, call.writes ≠ some x.taskId) → Taken s mid x.taskId := by
  have hpassed : ∀ pre post s, calls = pre ++ post → system.exec b pre = some s → s.DistinctTimes := by
    intro pre post s hcalls hs
    rw [hcalls, System.exec_append, hs] at h
    exact distinctTimes_of_exec h hdistinct
  constructor
  · intro pre team role recoveredAt claimedAt post s hcalls hs
    exact Board.claimsOldest_claimNext (hpassed pre _ s hcalls hs)
  · intro pre mid team role recoveredAt claimedAt post s u hcalls hs hu y hy x hx hqueued hteam hrole hlt hwrites
    refine (waits_or_taken hu hx hqueued hwrites).resolve_left fun hstays => ?_
    have hudistinct : u.DistinctTimes := hpassed (pre ++ mid) _ u hcalls (by rw [System.exec_append, hs]; exact hu)
    exact not_queued_of_claim hudistinct hy hstays hteam hrole hlt hqueued

/-- Two queued tasks of one team and role. -/
def twoQueued : Board where
  rows := [.new "t1" "default" "coordinator" "do it" "user" none none 1,
    .new "t2" "default" "coordinator" "and that" "user" none none 2]
  nodup := by decide

/-- The older one is claimed, goes stale and is claimed again, and then the younger one. -/
def threeClaims : List Call :=
  [.claimNext "default" none 10 11, .claimNext "default" none 600000012 600000013,
   .claimNext "default" none 600000014 600000015]

theorem claims_threeClaims : Taken twoQueued (threeClaims.take 2) "t1" := by
  have hex : ((system.exec twoQueued threeClaims).any fun b => b.DistinctTimes) = true := by decide +kernel
  obtain ⟨b, hrun, hdistinct⟩ := System.exists_of_exec hex
  have hmid : ((system.exec twoQueued (threeClaims.take 2)).any fun u =>
      (Board.claimNext u "default" none 600000014 600000015).2.any fun y =>
        y.teamId = "default" && y.role = "coordinator" && 1 < y.createdAt) = true := by
    decide +kernel
  obtain ⟨u, hu, hnext⟩ := System.exists_of_exec hmid
  obtain ⟨y, hy, hyis⟩ := (Option.any_eq_true ..).mp hnext
  simp only [Bool.and_eq_true, decide_eq_true_eq] at hyis
  exact (claims_in_turn hrun (of_decide_eq_true hdistinct)).2 [] (threeClaims.take 2) "default" none 600000014
    600000015 [] twoQueued u rfl rfl hu y hy _ List.mem_cons_self rfl hyis.1.1.symm hyis.1.2.symm hyis.2 (by decide)

end Turns

end Persola.Workqueue
