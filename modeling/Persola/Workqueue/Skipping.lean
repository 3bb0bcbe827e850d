import Persola.Workqueue.Exclusion

/-!
# `Workqueue.Skipping` — when a claim comes back empty-handed

The claiming `SELECT … FOR UPDATE SKIP LOCKED` has no `LIMIT`, so a tick locks every queued row it could
have claimed and keeps the locks until its transaction ends. Another tick finds nothing to claim meanwhile
although nobody works on the remaining tasks.
-/

namespace Persola.Workqueue.Ticks

open Runs

/-- The queued tasks tick `tick` could claim if no row were locked: all those of its team when it has no
    role filter. -/
def State.queued (s : State) (tick : Tick) : List WorkTask :=
  Board.queuedFor (s.view tick) tick.team tick.role

/-- An open tick other than `i` holds the task. -/
def State.HeldByOther (s : State) (i : ℕ) (id : TaskId) : Prop :=
  ∃ (j : ℕ) (tj : Tick) (a : WorkTask),
    j ≠ i ∧ s.ticks[j]? = some tj ∧ tj.task = some a ∧ a.taskId = id

/-- No tick other than `i` has locked a task of the list besides the one it holds. -/
def State.LocksOnlyHeld (s : State) (i : ℕ) (tasks : List WorkTask) : Prop :=
  ∀ (j : ℕ) (tj : Tick), j ≠ i → s.ticks[j]? = some tj → ∀ t ∈ tasks, t.taskId ∈ tj.locks →
    ∃ a, tj.task = some a ∧ a.taskId = t.taskId

variable {s : State} {i : ℕ} {tick : Tick}

theorem lockedByOther_iff {id : TaskId} :
    s.LockedByOther i id ↔
      ∃ (j : ℕ) (tj : Tick), j ≠ i ∧ s.ticks[j]? = some tj ∧ id ∈ tj.locks := by
  constructor
  · rintro ⟨j, hlt, hji, hid⟩
    have hj : s.ticks[j]? = some s.ticks[j] := List.getElem?_eq_getElem hlt
    exact ⟨j, s.ticks[j], hji, hj, mem_locksOf hj ▸ hid⟩
  · rintro ⟨j, tj, hji, hj, hid⟩
    exact ⟨j, (List.getElem?_eq_some_iff.mp hj).1, hji, mem_locksOf hj ▸ hid⟩

/-- The claim returns nothing exactly when every queued task is locked by others. -/
theorem claimRows_eq_nil_iff :
    claimRows s i tick = [] ↔ ∀ t ∈ s.queued tick, s.LockedByOther i t.taskId := by
  simp [claimRows, State.queued, List.filter_eq_nil_iff]

/-- The tick that locked a held task is the one that holds it. -/
theorem Inv.holder {s₀ : State} (h : Inv s₀ s) {j k : ℕ} {tj tk : Tick} {a : WorkTask}
    (hj : s.ticks[j]? = some tj) (hk : s.ticks[k]? = some tk) (hlock : a.taskId ∈ tj.locks)
    (ha : tk.task = some a) : j = k := by
  by_contra hjk
  have hlk := (h.ticks tk (List.mem_of_getElem? hk)).task_locked ha
  exact h.exclusive j k tj tk hjk hj hk _ hlock hlk

/-- **A claim comes back empty-handed for the right reason exactly when nobody over-locks.** In every
    state the ticks can reach, the claim of tick `i` has the property that it returns nothing only if
    every queued task is held by some other open tick, if and only if some queued task is locked by no
    other tick, or no other tick has locked a queued task besides the one it holds. -/
theorem claim_empty_iff (h : system.Reachable s) (hst : tick.stage = .recovered) :
    (claimNext s i tick = some (tick.close .nothing) →
        ∀ t ∈ s.queued tick, s.HeldByOther i t.taskId) ↔
      (∃ t ∈ s.queued tick, ¬ s.LockedByOther i t.taskId) ∨
        s.LocksOnlyHeld i (s.queued tick) := by
  obtain ⟨s₀, h₀, hrun⟩ := h
  have hinv : Inv s₀ s := hrun.invariant (fun _ _ _ hI _ hst => inv_step hI hst) (inv_init h₀)
  have hempty : claimNext s i tick = some (tick.close .nothing) ↔ claimRows s i tick = [] := by
    unfold claimNext
    rw [hst]
    cases hrows : claimRows s i tick with
    | nil => simp
    | cons r rows => simp [Tick.close]
  rw [hempty, claimRows_eq_nil_iff]
  constructor
  · intro hprop
    by_cases hfree : ∃ t ∈ s.queued tick, ¬ s.LockedByOther i t.taskId
    · exact Or.inl hfree
    · have hall : ∀ t ∈ s.queued tick, s.LockedByOther i t.taskId :=
        fun t ht => by_contra fun hno => hfree ⟨t, ht, hno⟩
      refine Or.inr fun j tj hji hj t ht hlock => ?_
      -- the holder of the task is the tick that has it locked, since locks exclude each other
      obtain ⟨k, tk, a, -, hk, ha, hid⟩ := hprop hall t ht
      have hjk : j = k := hinv.holder hj hk (hid ▸ hlock) ha
      subst hjk
      obtain rfl : tj = tk := Option.some.inj (hj.symm.trans hk)
      exact ⟨a, ha, hid⟩
  · rintro (⟨t, ht, hfree⟩ | honly) hall
    · exact absurd (hall t ht) hfree
    · intro t ht
      obtain ⟨j, tj, hji, hj, hlock⟩ := lockedByOther_iff.mp (hall t ht)
      obtain ⟨a, ha, hid⟩ := honly j tj hji hj t ht hlock
      exact ⟨j, tj, a, hji, hj, ha, hid⟩

/-! ## Two ticks over two queued tasks -/

theorem init_emptyBoard : system.init emptyBoard := rfl

/-- The first tick has claimed the older of two queued tasks; the second is about to claim. -/
def secondClaims : List Action :=
  [.enqueue "t1" "default" "coordinator" "a" "user" none none,
   .enqueue "t2" "default" "coordinator" "b" "user" none none,
   .openTick "default" none, .openTick "default" none, .recover 0, .recover 1, .claim 0]

/-- The second tick gets nothing although the task `t2` is queued and no tick holds it. -/
theorem claim_skips_queued_task :
    ∃ (s : State) (tick : Tick), system.Reachable s ∧ s.ticks[1]? = some tick ∧
      tick.stage = .recovered ∧ tick.role = none ∧
      claimNext s 1 tick = some (tick.close .nothing) ∧
      ∃ t ∈ s.queued tick, ¬ s.HeldByOther 1 t.taskId := by
  have hex : ((system.exec emptyBoard secondClaims).any fun s => s.ticks[1]?.any fun tick =>
      tick.stage = .recovered && tick.role = none && claimRows s 1 tick = [] &&
      (s.queued tick).any fun t => t.taskId = "t2" &&
        (s.ticks.map Tick.task).all fun held => held.all fun a => a.taskId ≠ t.taskId) = true := by
    decide +kernel
  obtain ⟨s, hrun, hs⟩ := System.exists_of_exec hex
  obtain ⟨tick, htick, hp⟩ := (Option.any_eq_true ..).mp hs
  simp only [Bool.and_eq_true, decide_eq_true_eq, List.any_eq_true, List.all_eq_true] at hp
  obtain ⟨⟨⟨hst, hrole⟩, hnil⟩, t, ht, -, hfree⟩ := hp
  refine ⟨s, tick, System.reachable_of_exec init_emptyBoard hrun, htick, hst, hrole, ?_, t, ht, ?_⟩
  · simp [claimNext, hst, hnil]
  · rintro ⟨j, tj, a, -, hj, ha, hid⟩
    have hall := hfree tj.task (List.mem_map.mpr ⟨tj, List.mem_of_getElem? hj, rfl⟩)
    rw [ha] at hall
    exact absurd hid (by simpa using hall)

/-- The same with one queued task. -/
def secondClaimsNothing : List Action :=
  [.enqueue "t1" "default" "coordinator" "a" "user" none none,
   .openTick "default" none, .openTick "default" none, .recover 0, .recover 1, .claim 0]

/-- The equivalence at a board with one task, held by the first tick: the second is rightly sent away. -/
theorem claim_empty_single :
    ∃ (s : State) (tick : Tick), system.Reachable s ∧ s.ticks[1]? = some tick ∧
      claimNext s 1 tick = some (tick.close .nothing) ∧
      ∀ t ∈ s.queued tick, s.HeldByOther 1 t.taskId := by
  have hex : ((system.exec emptyBoard secondClaimsNothing).any fun s => s.ticks[1]?.any fun tick =>
      tick.stage = .recovered && claimRows s 1 tick = [] &&
      s.ticks.all fun tj => (s.queued tick).all fun t =>
        t.taskId ∈ tj.locks → tj.task.any fun a => a.taskId = t.taskId) = true := by
    decide +kernel
  obtain ⟨s, hrun, hs⟩ := System.exists_of_exec hex
  obtain ⟨tick, htick, hp⟩ := (Option.any_eq_true ..).mp hs
  simp only [Bool.and_eq_true, decide_eq_true_eq, List.all_eq_true, Option.any_eq_true] at hp
  obtain ⟨⟨hst, hnil⟩, honly⟩ := hp
  have hreach : system.Reachable s := System.reachable_of_exec init_emptyBoard hrun
  have hempty : claimNext s 1 tick = some (tick.close .nothing) := by simp [claimNext, hst, hnil]
  refine ⟨s, tick, hreach, htick, hempty, (claim_empty_iff hreach hst).mpr (Or.inr ?_) hempty⟩
  exact fun j tj _ hj t ht hlock => honly tj (List.mem_of_getElem? hj) t ht hlock

end Persola.Workqueue.Ticks
