import Persola.Lib.Runs
import Persola.Workqueue.Board
import Mathlib.Logic.Function.Basic

/-!
# `Workqueue.Clients` — clients working a board through `AgentTaskQueue`

Each call runs in a transaction of its own, so it is one step on the committed board. A client may call
`mark_in_progress`, `complete` and `fail` on the tasks it got from `claim_next` and has not finished; the
clock moves forward in between. No status write looks at the status it overwrites, so the outcome of a
finished task stays exactly as long as no write finds the task finished already.
-/

namespace Persola.Workqueue.Clients

open Runs

abbrev ClientId := ℕ

/-- The committed board, the clock, the tasks each client holds and, for the statements only, who claimed
    a task last. -/
structure State where
  board : Board
  now : Time
  held : ClientId → List TaskId
  claimant : TaskId → Option ClientId

inductive Action
  | enqueue (taskId : TaskId) (role subtask origin : String) (parentTaskId sessionId : Option String)
  | advance (elapsed : Time)
  | claimNext (c : ClientId) (role : Option String)
  | markInProgress (c : ClientId) (id : TaskId)
  | complete (c : ClientId) (id : TaskId) (result : String)
  | fail (c : ClientId) (id : TaskId) (error : String)
deriving DecidableEq, Repr

/-- `claim_next`: re-queue stale claims, then claim the oldest queued task. Both are committed, the first
    also when there is nothing to claim. -/
def claimNext (team : String) (s : State) (c : ClientId) (role : Option String) : State :=
  let board := Board.recoverStale s.board team s.now
  match (Board.queuedFor board team role).head? with
  | none => { s with board }
  | some t =>
      { s with
        -- the re-queued row keeps its old holder: nobody is told that the claim has passed on
        board := board.modify t.taskId (·.claim s.now) fun _ => WorkTask.claim_taskId
        held := Function.update s.held c (t.taskId :: s.held c)
        claimant := Function.update s.claimant t.taskId (some c) }

/-- A client finished a task. -/
def State.letGo (s : State) (c : ClientId) (id : TaskId) : ClientId → List TaskId :=
  Function.update s.held c ((s.held c).filter (· ≠ id))

def step (team : String) (s : State) : Action → Option State
  | .enqueue id role subtask origin parent session =>
      let task := WorkTask.new id team role subtask origin parent session s.now
      if h : s.board.get? task.taskId = none then
        some { s with board := s.board.insert task h }
      else none
  | .advance elapsed => some { s with now := s.now + elapsed }
  | .claimNext c role => some (claimNext team s c role)
  | .markInProgress c id =>
      if id ∈ s.held c then
        some { s with
          board := s.board.modify id (·.markInProgress) fun _ => WorkTask.markInProgress_taskId }
      else none
  | .complete c id result =>
      if id ∈ s.held c then
        some { s with
          board := s.board.modify id (·.complete result s.now) fun _ => WorkTask.complete_taskId
          -- finished for this client only: an earlier holder still has the task in hand
          held := s.letGo c id }
      else none
  | .fail c id error =>
      if id ∈ s.held c then
        some { s with
          board := s.board.modify id (·.fail error s.now) fun _ => WorkTask.fail_taskId
          held := s.letGo c id }
      else none

/-- Any board and no client at work yet. -/
def system (team : String) : System State Action where
  init s := (∀ c, s.held c = []) ∧ ∀ id, s.claimant id = none
  step := step team

/-! ## What should stay, and what makes it stay -/

/-- The part of a row that is settled once the task is over. -/
def outcome (t : WorkTask) : TaskStatus × Option String × Option String × Option Time :=
  (t.status, t.result, t.error, t.completedAt)

/-- A finished task of `b` has the same outcome in `b'`. -/
def KeepsFinished (b b' : Board) : Prop :=
  ∀ id t, b.get? id = some t → t.Finished → ∃ t', b'.get? id = some t' ∧ outcome t' = outcome t

/-- A status write finds its task unfinished, or repeats the very finish that is stored. -/
def WritesUnfinished (s : State) : Action → Prop
  | .markInProgress _ id => ∀ t ∈ s.board.get? id, ¬ t.Finished
  | .complete _ id result => ∀ t ∈ s.board.get? id, t.Finished →
      t.status = .done ∧ t.result = some result ∧ t.completedAt = some s.now
  | .fail _ id error => ∀ t ∈ s.board.get? id, t.Finished →
      t.status = .failed ∧ t.error = some error ∧ t.completedAt = some s.now
  | _ => True

/-- A status write comes from the client that claimed the task last. -/
def WritesByClaimant (s : State) : Action → Prop
  | .markInProgress c id | .complete c id _ | .fail c id _ => s.claimant id = some c
  | _ => True

instance (s : State) (a : Action) : Decidable (WritesByClaimant s a) := by
  unfold WritesByClaimant; split <;> infer_instance

theorem KeepsFinished.refl (b : Board) : KeepsFinished b b := fun _ t h _ => ⟨t, h, rfl⟩

theorem KeepsFinished.trans {b b' b'' : Board} (h : KeepsFinished b b') (h' : KeepsFinished b' b'') :
    KeepsFinished b b'' := by
  intro id t ht hf
  obtain ⟨t', ht', ho⟩ := h id t ht hf
  have hf' : t'.Finished := by
    have hs : t'.status = t.status := congrArg Prod.fst ho
    simpa [WorkTask.Finished, hs] using hf
  obtain ⟨t'', ht'', ho'⟩ := h' id t' ht' hf'
  exact ⟨t'', ht'', ho'.trans ho⟩

/-- A change of rows that leaves finished ones alone. -/
theorem keepsFinished_mapRows {b : Board} {f : WorkTask → WorkTask}
    {hf : ∀ t, (f t).taskId = t.taskId} (h : ∀ t, t.Finished → outcome (f t) = outcome t) :
    KeepsFinished b (b.mapRows f hf) :=
  fun _ t ht hfin => ⟨f t, by rw [Table.get?_mapRows, ht]; rfl, h t hfin⟩

/-- Changing one row keeps the finished ones exactly if that row was unfinished or stays as it is. -/
theorem keepsFinished_modify_iff {b : Board} {id : TaskId} {f : WorkTask → WorkTask}
    (hf : ∀ t, (f t).taskId = t.taskId) :
    KeepsFinished b (b.modify id f hf) ↔
      ∀ t ∈ b.get? id, t.Finished → outcome (f t) = outcome t := by
  constructor
  · intro h t ht hfin
    obtain ⟨t', ht', ho⟩ := h id t ht hfin
    rw [Table.get?_modify, if_pos rfl, ht] at ht'
    exact Option.some.inj ht' ▸ ho
  · intro h id' t ht hfin
    by_cases hid : id' = id
    · subst hid
      exact ⟨f t, by rw [Table.get?_modify, if_pos rfl, ht]; rfl, h t ht hfin⟩
    · exact ⟨t, by rw [Table.get?_modify, if_neg hid, ht], rfl⟩

section
variable {team : String} {s t : State}

theorem recoverStale_keeps (b : Board) (now : Time) :
    KeepsFinished b (Board.recoverStale b team now) := by
  refine keepsFinished_mapRows fun t ht => ?_
  rw [if_neg fun hs => hs.not_finished ht]

/-- The row the claim picks is queued, so nothing finished is touched. -/
theorem claimNext_keeps (c : ClientId) (role : Option String) :
    KeepsFinished s.board (claimNext team s c role).board := by
  unfold claimNext
  dsimp only
  split
  · exact recoverStale_keeps _ _
  · next t ht =>
      refine (recoverStale_keeps s.board s.now).trans ((keepsFinished_modify_iff fun _ => WorkTask.claim_taskId).mpr ?_)
      intro t' ht' hfin
      have hmem := Board.mem_queuedFor.mp (List.mem_of_mem_head? ht)
      have htt : t' = t := Option.some.inj (ht'.symm.trans (Table.get?_key hmem.1))
      -- the claim reads the row after recovery, so it is a queued one
      exact absurd (htt ▸ hfin) hmem.2.not_finished

/-- **Step lemma**: a step keeps the outcomes of finished tasks exactly if its status write, if it is
    one, finds its task unfinished. -/
theorem keeps_iff {a : Action} (h : ((system team).step s a).isSome) :
    (system team).keeps (fun s t => KeepsFinished s.board t.board) s a ↔ WritesUnfinished s a := by
  obtain ⟨t, ht⟩ := Option.isSome_iff_exists.mp h
  have hone : (system team).keeps (fun s t => KeepsFinished s.board t.board) s a ↔
      KeepsFinished s.board t.board :=
    ⟨fun hk => hk t ht, fun hk t' ht' => Option.some.inj (ht.symm.trans ht') ▸ hk⟩
  rw [hone]
  cases a with
  | enqueue id role subtask origin parent session =>
      simp only [system, step] at ht
      split at ht
      · next hnew =>
          cases ht
          exact iff_of_true (fun _ t ht _ => ⟨t, Table.get?_insert_of_some hnew ht, rfl⟩) trivial
      · cases ht
  | advance elapsed => cases ht; exact iff_of_true (.refl _) trivial
  | claimNext c role => cases ht; exact iff_of_true (claimNext_keeps c role) trivial
  | markInProgress c id =>
      simp only [system, step] at ht
      split at ht <;> cases ht
      rw [keepsFinished_modify_iff]
      refine forall_congr' fun t => forall_congr' fun _ => ?_
      refine ⟨fun hk hfin => WorkTask.markInProgress_not_finished (t := t) ?_,
        fun hk hfin => absurd hfin hk⟩
      have hs : t.markInProgress.status = t.status := congrArg Prod.fst (hk hfin)
      simpa [WorkTask.Finished, hs] using hfin
  | complete c id result =>
      simp only [system, step] at ht
      split at ht <;> cases ht
      rw [keepsFinished_modify_iff]
      refine forall_congr' fun t => forall_congr' fun _ => imp_congr_right fun _ => ?_
      simp [outcome, WorkTask.complete, WorkTask.updateStatus, eq_comm]
  | fail c id error =>
      simp only [system, step] at ht
      split at ht <;> cases ht
      rw [keepsFinished_modify_iff]
      refine forall_congr' fun t => forall_congr' fun _ => imp_congr_right fun _ => ?_
      simp [outcome, WorkTask.fail, WorkTask.updateStatus, eq_comm]

end

/-! ## The last claimant -/

/-- The last claimant of a finished task holds it no more. -/
def Inv (s : State) : Prop :=
  ∀ id t, s.board.get? id = some t → t.Finished → ∀ c, s.claimant id = some c → id ∉ s.held c

section
variable {team : String} {s t : State}

/-- Under the invariant, a write by the last claimant finds its task unfinished. -/
theorem Inv.writesUnfinished (hs : Inv s) {a : Action} (h : ((system team).step s a).isSome)
    (hw : WritesByClaimant s a) : WritesUnfinished s a := by
  have hnot : ∀ c id, s.claimant id = some c → id ∈ s.held c →
      ∀ t ∈ s.board.get? id, ¬ t.Finished := fun c id hc hid t ht hfin => hs id t ht hfin c hc hid
  cases a with
  | markInProgress c id =>
      simp only [system, step, Option.isSome_ite] at h
      exact hnot c id hw h
  | complete c id result | fail c id error =>
      simp only [system, step, Option.isSome_ite] at h
      exact fun t ht hfin => absurd hfin (hnot c id hw h t ht)
  | enqueue | advance | claimNext => trivial

theorem inv_init (h : (system team).init s) : Inv s := by
  intro id t _ _ c hc
  rw [h.2 id] at hc
  cases hc

theorem mem_letGo {c c' : ClientId} {id id' : TaskId} (h : id' ∈ s.letGo c id c') :
    id' ∈ s.held c' ∧ (c' = c → id' ≠ id) := by
  by_cases hc : c' = c
  · subst hc
    simpa [State.letGo] using h
  · rw [State.letGo, Function.update_of_ne hc] at h
    exact ⟨h, fun he => absurd he hc⟩

/-- A write that leaves its task unfinished cannot break the invariant, whatever is claimed meanwhile. -/
theorem Inv.unfinished (hs : Inv s) {id : TaskId} {f : WorkTask → WorkTask}
    (hf : ∀ t, (f t).taskId = t.taskId) (hun : ∀ t, ¬ (f t).Finished)
    (hclaim : ∀ id' c, id' ≠ id → t.claimant id' = some c → id' ∈ t.held c →
      s.claimant id' = some c ∧ id' ∈ s.held c)
    (hboard : t.board = s.board.modify id f hf) : Inv t := by
  intro id' t' ht' hfin c hc hheld
  rw [hboard] at ht'
  by_cases hid : id' = id
  · subst hid
    rw [Table.get?_modify_self, Option.map_eq_some_iff] at ht'
    obtain ⟨t₀, -, rfl⟩ := ht'
    exact hun t₀ hfin
  · rw [Table.get?_modify_ne hid] at ht'
    obtain ⟨hc', hheld'⟩ := hclaim id' c hid hc hheld
    exact hs id' t' ht' hfin c hc' hheld'

/-- Finishing a task releases it from the hands of its last claimant. -/
theorem Inv.finish (hs : Inv s) {c : ClientId} {id : TaskId} (hc : s.claimant id = some c)
    {f : WorkTask → WorkTask} (hf : ∀ t, (f t).taskId = t.taskId) :
    Inv { s with board := s.board.modify id f hf, held := s.letGo c id } := by
  intro id' t ht hfin c' hc' hheld
  obtain ⟨hold, hne⟩ := mem_letGo hheld
  by_cases hid : id' = id
  · subst hid
    -- the last claimant is the client that finishes it, and it lets go
    exact hne (Option.some.inj (hc'.symm.trans hc)) rfl
  · dsimp only at ht hc'
    rw [Table.get?_modify_ne hid] at ht
    exact hs id' t ht hfin c' hc' hold

/-- Re-queuing touches no finished row. -/
theorem Inv.recoverStale (hs : Inv s) : Inv { s with board := s.board.recoverStale team s.now } := by
  intro id t ht hfin
  dsimp only at ht
  rw [Board.recoverStale, Table.get?_mapRows, Option.map_eq_some_iff] at ht
  obtain ⟨t₀, ht₀, rfl⟩ := ht
  by_cases hst : t₀.Stale team s.now
  · rw [if_pos hst] at hfin
    exact absurd hfin WorkTask.requeue_not_finished
  · rw [if_neg hst] at hfin
    exact hs id t₀ ht₀ hfin

theorem inv_step {a : Action} (hs : Inv s) (hw : WritesByClaimant s a)
    (h : (system team).step s a = some t) : Inv t := by
  cases a with
  | enqueue id role subtask origin parent session =>
      simp only [system, step] at h
      split at h
      · next hnew =>
          cases h
          intro id' t' ht' hfin c hc
          dsimp only at ht' hc ⊢
          rw [Table.get?_insert] at ht'
          split at ht'
          · obtain rfl := Option.some.inj ht'
            simp [WorkTask.Finished, WorkTask.new] at hfin
          · exact hs id' t' ht' hfin c hc
      · cases h
  | advance elapsed => cases h; exact hs
  | claimNext c role =>
      cases h
      unfold claimNext
      dsimp only
      split
      · exact hs.recoverStale
      · next task htask =>
          have hrecovered : Inv { s with board := s.board.recoverStale team s.now } := hs.recoverStale
          refine Inv.unfinished hrecovered (fun _ => WorkTask.claim_taskId)
            (fun _ => WorkTask.claim_not_finished) (fun id' c' hne hc' hheld => ?_) rfl
          dsimp only at hc' hheld
          rw [Function.update_of_ne hne] at hc'
          refine ⟨hc', ?_⟩
          by_cases hcc : c' = c
          · subst hcc
            rw [Function.update_self] at hheld
            exact (List.mem_cons.mp hheld).resolve_left hne
          · rwa [Function.update_of_ne hcc] at hheld
  | markInProgress c id =>
      simp only [system, step] at h
      split at h <;> cases h
      exact hs.unfinished (fun _ => WorkTask.markInProgress_taskId)
        (fun _ => WorkTask.markInProgress_not_finished)
        (fun _ _ _ hc hheld => ⟨hc, hheld⟩) rfl
  | complete c id result =>
      simp only [system, step] at h
      split at h <;> cases h
      exact hs.finish hw _
  | fail c id error =>
      simp only [system, step] at h
      split at h <;> cases h
      exact hs.finish hw _

end

/-! ## Whole runs -/

/-- **Outcomes stay exactly when no status write finds its task finished.** In every run of clients on a
    board, once a task is done or failed no later step changes its status, result, error or completion
    time, if and only if every `mark_in_progress`, `complete` and `fail` of the run finds its task not
    yet done or failed, or repeats at the same instant the very finish that is stored. It is enough that
    every write comes from the client that claimed the task last. -/
theorem outcomes_stay_iff {s₀ s : State} {team : String} (h₀ : (system team).init s₀)
    {acts : List Action} (h : (system team).exec s₀ acts = some s) :
    ((system team).Along (fun s t => KeepsFinished s.board t.board) s₀ acts ↔
        (system team).Meets WritesUnfinished s₀ acts) ∧
      ((system team).Meets WritesByClaimant s₀ acts →
        (system team).Along (fun s t => KeepsFinished s.board t.board) s₀ acts) := by
  have hiff : (system team).Along (fun s t => KeepsFinished s.board t.board) s₀ acts ↔
      (system team).Meets WritesUnfinished s₀ acts := by
    rw [System.along_iff (fun s => .refl s.board) fun _ _ _ => .trans]
    exact System.meets_congr (fun _ _ => keeps_iff) h
  exact ⟨hiff, fun hm => hiff.mpr (System.meets_mono (fun _ _ _ => inv_step)
    (fun _ _ hI hst hw => hI.writesUnfinished hst hw) (inv_init h₀) h hm)⟩

/-! ## Two holders of one task -/

def emptyBoard : State := ⟨⟨[], List.nodup_nil⟩, 0, fun _ => [], fun _ => none⟩

/-- Client 0 claims a task and is slow; 601 s later client 1 gets it too and completes it. -/
def secondHolder : List Action :=
  [.enqueue "t1" "coordinator" "do it" "user" none none, .claimNext 0 none, .advance 601000000,
   .claimNext 1 none, .markInProgress 1 "t1", .complete 1 "t1" "answer"]

/-- The first client comes back and the completed task fails. -/
theorem slow_client_overwrites_result :
    ∃ s, (system "default").Reachable s ∧
      ∃ t, (system "default").step s (.fail 0 "t1" "timeout") = some t ∧
        ¬ KeepsFinished s.board t.board := by
  have hex : (((system "default").exec emptyBoard secondHolder).any fun s =>
      ((system "default").step s (.fail 0 "t1" "timeout")).any fun t =>
        (s.board.get? "t1").any fun row => row.Finished &&
          (t.board.get? "t1").any fun row' => outcome row' ≠ outcome row) = true := by
    decide +kernel
  obtain ⟨s, hrun, hs⟩ := System.exists_of_exec hex
  obtain ⟨t, hstep, ht⟩ := (Option.any_eq_true ..).mp hs
  obtain ⟨row, hrow, hr⟩ := (Option.any_eq_true ..).mp ht
  rw [Bool.and_eq_true, decide_eq_true_eq] at hr
  obtain ⟨row', hrow', hne⟩ := (Option.any_eq_true ..).mp hr.2
  refine ⟨s, System.reachable_of_exec ⟨fun _ => rfl, fun _ => rfl⟩ hrun, t, hstep, fun hk => ?_⟩
  obtain ⟨row'', hrow'', ho⟩ := hk "t1" row hrow hr.1
  exact of_decide_eq_true hne (Option.some.inj (hrow'.symm.trans hrow'') ▸ ho)

/-- The equivalence at the run up to the first completion, whose writes all come from the last
    claimant. -/
theorem outcomes_stay_secondHolder :
    (system "default").Along (fun s t => KeepsFinished s.board t.board) emptyBoard secondHolder := by
  have hex : ((system "default").exec emptyBoard secondHolder).isSome = true := by decide +kernel
  obtain ⟨s, hrun⟩ := Option.isSome_iff_exists.mp hex
  exact (outcomes_stay_iff ⟨fun _ => rfl, fun _ => rfl⟩ hrun).2 (by decide +kernel)

end Persola.Workqueue.Clients
