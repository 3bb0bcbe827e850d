import Persola.Workqueue.Clients

/-!
# `Workqueue.Rows` — what the columns of a task say about each other

Every statement writes the columns it is about and leaves the others. A stale claim that is re-queued keeps its
claim time and gets an error text that no later completion takes away, so the columns of a row agree with its
status exactly in the runs that never meet what such a row still carries.
-/

namespace Persola.Workqueue

/-! ## Consistent rows -/

/-- The columns of a task agree with its status. -/
structure WorkTask.Consistent (t : WorkTask) : Prop where
  done : t.status = .done → t.result.isSome ∧ t.error = none
  failed : t.status = .failed → t.error.isSome ∧ t.result = none
  completed : t.completedAt.isSome ↔ t.Finished
  queued : t.status = .queued → t.claimedAt = none

/-- All rows of the board are consistent. -/
def Board.Consistent (b : Board) : Prop := ∀ t ∈ b.rows, t.Consistent

namespace WorkTask

variable {t : WorkTask} {team : String} {role : Option String} {now : Time}

theorem Consistent.completedAt_none (h : t.Consistent) (hun : ¬ t.Finished) : t.completedAt = none := by
  have hcompleted := h.completed.not.mpr hun
  simpa using hcompleted

/-- A row that is at work only has no completion time. -/
theorem consistent_of_working (hcompleted : t.completedAt = none)
    (hstatus : t.status = .claimed ∨ t.status = .inProgress) :
    t.Consistent := by
  rcases hstatus with h | h
  · exact ⟨by simp [h], by simp [h], by simp [hcompleted, Finished, h], by simp [h]⟩
  · exact ⟨by simp [h], by simp [h], by simp [hcompleted, Finished, h], by simp [h]⟩

theorem new_consistent {id : TaskId} {subtask origin r : String} {parent session : Option String} :
    (new id team r subtask origin parent session now).Consistent :=
  ⟨by simp [new], by simp [new], by simp [new, Finished], by simp [new]⟩

theorem claim_consistent (h : t.completedAt = none) : (t.claim now).Consistent :=
  consistent_of_working h (.inl rfl)

/-- **Re-queuing** leaves a consistent row exactly if it had no claim time. -/
theorem requeue_consistent_iff (h : t.completedAt = none) : t.requeue.Consistent ↔ t.claimedAt = none := by
  constructor
  · exact fun hc => hc.queued rfl
  · intro hclaimed
    exact ⟨by simp [requeue], by simp [requeue], by simp [requeue, Finished, h], fun _ => hclaimed⟩

/-- **`mark_in_progress`** leaves a consistent row exactly if the task was unfinished. -/
theorem markInProgress_consistent_iff (h : t.Consistent) : t.markInProgress.Consistent ↔ ¬ t.Finished := by
  have hsame : t.markInProgress.completedAt = t.completedAt := rfl
  constructor
  · intro hc hfin
    exact markInProgress_not_finished (hc.completed.mp (hsame ▸ h.completed.mpr hfin))
  · intro hun
    exact consistent_of_working (hsame.trans (h.completedAt_none hun)) (.inr rfl)

/-- **`complete`** leaves a consistent row exactly if the row had no error text. -/
theorem complete_consistent_iff {result : String} : (t.complete result now).Consistent ↔ t.error = none := by
  constructor
  · exact fun hc => (hc.done rfl).2
  · intro herror
    refine ⟨fun _ => ⟨rfl, herror⟩, (nomatch ·), iff_of_true rfl complete_finished, (nomatch ·)⟩

/-- **`fail`** leaves a consistent row exactly if the row had no result. -/
theorem fail_consistent_iff {error : String} : (t.fail error now).Consistent ↔ t.result = none := by
  constructor
  · exact fun hc => (hc.failed rfl).2
  · intro hresult
    refine ⟨(nomatch ·), fun _ => ⟨rfl, hresult⟩, iff_of_true rfl fail_finished, (nomatch ·)⟩

end WorkTask

/-! ## Boards -/

namespace Board

variable {b : Board} {team : String} {role : Option String} {now : Time}

/-- The rows a claim may end up with: queued ones and stale claims. -/
def Claimable (team : String) (role : Option String) (now : Time) (t : WorkTask) : Prop :=
  t.teamId = team ∧ (t.status = .queued ∨ t.Stale team now) ∧ ∀ r ∈ role, t.role = r

instance (team : String) (role : Option String) (now : Time) (t : WorkTask) :
    Decidable (Claimable team role now t) := inferInstanceAs (Decidable (_ ∧ _ ∧ _))

/-- The oldest task that is queued or a stale claim. -/
def oldestClaimable (b : Board) (team : String) (role : Option String) (now : Time) : Option WorkTask :=
  (Select.orderBy (·.createdAt) (b.rows.filter fun t => Claimable team role now t)).head?

/-- What recovery makes of a row. -/
def recovered (team : String) (now : Time) (t : WorkTask) : WorkTask :=
  if t.Stale team now then t.requeue else t

/-- Recovered rows are queued for the claim exactly if they were claimable. -/
theorem recovered_queuedFor_iff {t : WorkTask} :
    (recovered team now t).QueuedFor team role ↔ Claimable team role now t := by
  unfold recovered
  split
  · next h => simp [WorkTask.QueuedFor, Claimable, WorkTask.requeue, h]
  · next h => simp [WorkTask.QueuedFor, Claimable, h]

/-- **The claim picks the oldest claimable task**, as recovery leaves it. -/
theorem head?_queuedFor_recoverStale : (queuedFor (recoverStale b team now) team role).head? =
    (oldestClaimable b team role now).map (recovered team now) := by
  have hrows : (recoverStale b team now).rows = b.rows.map (recovered team now) := rfl
  have hkey : ∀ t, (recovered team now t).createdAt = t.createdAt := by
    intro t
    unfold recovered
    split <;> rfl
  unfold queuedFor oldestClaimable
  rw [hrows, List.filter_map, Select.orderBy_map, List.head?_map]
  simp only [Function.comp_def, recovered_queuedFor_iff, hkey]

/-- Changing one row keeps the board consistent exactly if it keeps that row consistent. -/
theorem consistent_modify_iff {id : TaskId} {f : WorkTask → WorkTask} {hf : ∀ t, (f t).taskId = t.taskId}
    (h : b.Consistent) : Board.Consistent (b.modify id f hf) ↔ ∀ t ∈ b.get? id, (f t).Consistent := by
  constructor
  · intro hc t ht
    refine hc (f t) (List.mem_map.mpr ⟨t, List.mem_of_find?_eq_some ht, ?_⟩)
    rw [if_pos (Table.key_of_get? ht)]
  · intro hc t ht
    obtain ⟨t₀, ht₀, rfl⟩ := List.mem_map.mp ht
    split
    · next hid => exact hc t₀ (hid ▸ Table.get?_key ht₀)
    · exact h t₀ ht₀

end Board

namespace Clients

open Runs

/-- The step meets nothing that contradicts what it writes. -/
def ClosesCleanly (team : String) (s : State) : Action → Prop
  -- what is re-queued with a claim time is claimed again at once
  | .claimNext _ role => ∀ t ∈ s.board.rows, t.Stale team s.now → t.claimedAt.isSome →
      Board.oldestClaimable s.board team role s.now = some t
  | .markInProgress _ id => ∀ t ∈ s.board.get? id, ¬ t.Finished
  | .complete _ id _ => ∀ t ∈ s.board.get? id, t.error = none
  | .fail _ id _ => ∀ t ∈ s.board.get? id, t.result = none
  | _ => True

instance (team : String) (s : State) : (a : Action) → Decidable (ClosesCleanly team s a)
  | .claimNext _ role => inferInstanceAs (Decidable (∀ t ∈ s.board.rows, t.Stale team s.now → t.claimedAt.isSome →
      Board.oldestClaimable s.board team role s.now = some t))
  | .markInProgress _ id => inferInstanceAs (Decidable (∀ t ∈ s.board.get? id, ¬ t.Finished))
  | .complete _ id _ => inferInstanceAs (Decidable (∀ t ∈ s.board.get? id, t.error = none))
  | .fail _ id _ => inferInstanceAs (Decidable (∀ t ∈ s.board.get? id, t.result = none))
  | .enqueue .. => inferInstanceAs (Decidable True)
  | .advance _ => inferInstanceAs (Decidable True)

section
variable {team : String} {s t : State}

/-- **`claim_next`** keeps the board consistent exactly if every stale claim with a time is the one it takes. -/
theorem claimNext_consistent_iff (c : ClientId) (role : Option String) (hs : s.board.Consistent) :
    (claimNext team s c role).board.Consistent ↔ ClosesCleanly team s (.claimNext c role) := by
  have hpick : ((s.board.recoverStale team s.now).queuedFor team role).head? = _ :=
    Board.head?_queuedFor_recoverStale
  -- a row that is not taken is consistent after recovery exactly if it is no stale claim with a time
  have hleft : ∀ t ∈ s.board.rows, (Board.recovered team s.now t).Consistent ↔
      (t.Stale team s.now → t.claimedAt = none) := by
    intro t ht
    unfold Board.recovered
    split
    · next hstale =>
        rw [WorkTask.requeue_consistent_iff ((hs t ht).completedAt_none hstale.not_finished)]
        exact ⟨fun h _ => h, fun h => h hstale⟩
    · next hfresh => exact iff_of_true (hs t ht) fun hstale => absurd hstale hfresh
  unfold claimNext
  dsimp only
  cases hnext : Board.oldestClaimable s.board team role s.now with
  | none =>
      rw [hnext] at hpick
      rw [hpick]
      show (∀ t ∈ s.board.rows.map (Board.recovered team s.now), t.Consistent) ↔ ∀ t ∈ s.board.rows, _
      rw [List.forall_mem_map]
      refine forall_congr' fun t => forall_congr' fun ht => (hleft t ht).trans (imp_congr_right fun _ => ?_)
      rw [hnext]
      cases t.claimedAt <;> simp
  | some taken =>
      rw [hnext] at hpick
      rw [hpick]
      obtain ⟨htaken, hclaimable⟩ := List.mem_filter.mp (Select.mem_orderBy.mp (List.mem_of_mem_head? hnext))
      have hid (t : WorkTask) : (Board.recovered team s.now t).taskId = t.taskId := by
        unfold Board.recovered
        split <;> rfl
      show (∀ t ∈ (s.board.rows.map (Board.recovered team s.now)).map _, WorkTask.Consistent t) ↔
        ∀ t ∈ s.board.rows, _
      rw [List.map_map, List.forall_mem_map]
      refine forall_congr' fun t => forall_congr' fun ht => ?_
      rw [hnext]
      simp only [Function.comp_apply, hid]
      split
      · next hsame =>
          obtain rfl : t = taken := List.inj_on_of_nodup_map s.board.nodup ht htaken hsame
          refine iff_of_true (WorkTask.claim_consistent ?_) fun _ _ => rfl
          have hun : ¬ t.Finished := by
            rcases (of_decide_eq_true hclaimable).2.1 with hqueued | hstale
            · simp [WorkTask.Finished, hqueued]
            · exact hstale.not_finished
          have hcompleted : (Board.recovered team s.now t).completedAt = t.completedAt := by
            unfold Board.recovered
            split <;> rfl
          exact hcompleted.trans ((hs t ht).completedAt_none hun)
      · next hother =>
          rw [hleft t ht]
          refine imp_congr_right fun _ => ?_
          have hne : ¬ taken = t := fun h => hother (congrArg _ h.symm)
          cases t.claimedAt <;> simp [hne]

/-- **One step** keeps the board consistent exactly if it closes cleanly. -/
theorem step_consistent_iff {a : Action} (hs : s.board.Consistent) (h : (system team).step s a = some t) :
    t.board.Consistent ↔ ClosesCleanly team s a := by
  cases a with
  | enqueue id role subtask origin parent session =>
      simp only [system, step] at h
      split at h
      · cases h
        refine iff_of_true (fun row hrow => ?_) trivial
        rcases List.mem_append.mp hrow with hold | hnew
        · exact hs row hold
        · rw [List.mem_singleton.mp hnew]
          exact WorkTask.new_consistent
      · cases h
  | advance elapsed =>
      cases h
      exact iff_of_true hs trivial
  | claimNext c role =>
      cases h
      exact claimNext_consistent_iff c role hs
  | markInProgress c id =>
      simp only [system, step] at h
      split at h <;> cases h
      rw [Board.consistent_modify_iff hs]
      refine forall_congr' fun row => forall_congr' fun hrow => ?_
      exact WorkTask.markInProgress_consistent_iff (hs row (List.mem_of_find?_eq_some hrow))
  | complete c id result =>
      simp only [system, step] at h
      split at h <;> cases h
      rw [Board.consistent_modify_iff hs]
      exact forall_congr' fun row => forall_congr' fun _ => WorkTask.complete_consistent_iff
  | fail c id error =>
      simp only [system, step] at h
      split at h <;> cases h
      rw [Board.consistent_modify_iff hs]
      exact forall_congr' fun row => forall_congr' fun _ => WorkTask.fail_consistent_iff

/-- **The rows of a board stay consistent throughout a run exactly if all its steps close cleanly.** -/
theorem consistent_throughout_iff {s₀ : State} {acts : List Action} (h₀ : s₀.board.Consistent)
    (h : (system team).exec s₀ acts = some s) :
    (system team).Throughout (fun s => s.board.Consistent) s₀ acts ↔
      (system team).Meets (ClosesCleanly team) s₀ acts :=
  System.throughout_iff (I := fun _ => True)
    (fun _ _ _ _ hs hst => ⟨trivial, step_consistent_iff hs hst⟩) trivial h₀ h

end

/-! ## Slow clients -/

theorem emptyBoard_consistent : emptyBoard.board.Consistent := fun _ h => absurd h List.not_mem_nil

/-- Client 0 is slow; the task it holds is re-queued and claimed again in one call, and client 1 gives up. -/
def handedOver : List Action :=
  [.enqueue "t1" "coordinator" "do it" "user" none none, .claimNext 0 none, .markInProgress 0 "t1",
   .advance 601000000, .claimNext 1 none, .markInProgress 1 "t1", .fail 1 "t1" "no idea"]

theorem consistent_handedOver : ((system "default").exec emptyBoard handedOver).isSome ∧
    (system "default").Throughout (fun s => s.board.Consistent) emptyBoard handedOver := by
  have hsome : ((system "default").exec emptyBoard handedOver).isSome = true := by decide +kernel
  obtain ⟨s, hrun⟩ := Option.isSome_iff_exists.mp hsome
  exact ⟨hsome, (consistent_throughout_iff emptyBoard_consistent hrun).mpr (by decide +kernel)⟩

/-- **The second client completes the task**: the row has a result and the error text of the re-queuing. -/
theorem completed_with_error : ¬ ∀ s₀ acts s, (system "default").init s₀ → s₀.board.Consistent →
    (system "default").exec s₀ acts = some s → s.board.Consistent := by
  intro hall
  have hex : (((system "default").exec emptyBoard secondHolder).any fun s =>
      (s.board.get? "t1").any fun t => t.status = .done && t.error.isSome) = true := by
    decide +kernel
  obtain ⟨s, hrun, hs⟩ := System.exists_of_exec hex
  obtain ⟨t, ht, hdone⟩ := (Option.any_eq_true ..).mp hs
  obtain ⟨hstatus, herror⟩ := Bool.and_eq_true_iff.mp hdone
  have hconsistent := hall emptyBoard secondHolder s ⟨fun _ => rfl, fun _ => rfl⟩ emptyBoard_consistent hrun t
    (List.mem_of_find?_eq_some ht)
  rw [(hconsistent.done (of_decide_eq_true hstatus)).2] at herror
  cases herror

end Clients

end Persola.Workqueue
