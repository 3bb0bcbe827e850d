import Persola.Lib.Pills
import Persola.Lib.Pool
import Persola.City.WorkerBooks

/-!
# `City.Stranding` — which queued items are served

Every sentinel ends one worker, so an item is taken as long as fewer sentinels are ahead of it than workers
are alive (`Pills.Served`). Workers keep this whatever they take; the one step that may break it is an
`enqueue` that puts its item behind the sentinels of a `stop`.
-/

namespace Persola.City.Worker

open Runs

/-- The workers that have not ended. -/
def CityWorkerPool.alive (s : CityWorkerPool) : ℕ := s.tasks.countP (· ≠ .exited)

/-- Every item in the queue has fewer sentinels ahead of it than workers are alive. -/
def CityWorkerPool.Served (s : CityWorkerPool) : Prop := Pills.Served s.alive s.queue

section
variable {cfg : PoolConfig} {s t : CityWorkerPool} {w : ℕ} {outcome : Except String (List Bool)}

/-! ## What workers and calls do to queue and tasks -/

/-- Only the tasks in a worker's own place change, and only the head of the queue is taken: a sentinel by a
    worker that ends, an item by one that goes on. -/
structure Worked (s t : CityWorkerPool) (w : ℕ) : Prop where
  calls : t.calls = s.calls
  workers : t.workers = s.workers
  started : t.started = s.started
  moves : ∃ stage stage', s.tasks[w]? = some stage ∧ stage ≠ .exited ∧ t.tasks = s.tasks.set w stage' ∧
    (s.queue = none :: t.queue ∧ stage' = .exited ∨
      ((∃ i, s.queue = some i :: t.queue) ∨ s.queue = t.queue) ∧ stage' ≠ .exited)

theorem worked_of_works (h : Works cfg s w t) : Worked s t w := by
  cases h with
  | ends hw hq => exact ⟨rfl, rfl, rfl, _, .exited, hw, nofun, rfl, .inl ⟨hq, rfl⟩⟩
  | takes hw hq => exact ⟨rfl, rfl, rfl, _, _, hw, nofun, rfl, .inr ⟨.inl ⟨_, hq⟩, nofun⟩⟩
  | executes hw | completes hw | fails hw | closes hw =>
      exact ⟨rfl, rfl, rfl, _, _, hw, nofun, rfl, .inr ⟨.inr rfl, nofun⟩⟩

/-- A worker that ends is one alive less; any other stays alive. -/
theorem alive_set {stage : Stage} (stage' : Stage) (hw : s.tasks[w]? = some stage) (hstage : stage ≠ .exited) :
    (s.tasks.set w stage').countP (· ≠ .exited) + (if stage' = .exited then 1 else 0) = s.alive := by
  have hset := Pool.countP_set (f := fun stage => decide (stage ≠ Stage.exited)) hw stage'
  rw [if_pos (decide_eq_true hstage)] at hset
  by_cases hexit : stage' = .exited
  · rw [if_neg (by simp [hexit])] at hset
    rw [if_pos hexit]
    exact hset
  · rw [if_pos (decide_eq_true hexit)] at hset
    rw [if_neg hexit]
    exact Nat.add_right_cancel hset

/-- Queue and living workers after the step of a worker. -/
theorem Worked.cases (h : Worked s t w) :
    (s.queue = none :: t.queue ∧ t.alive + 1 = s.alive) ∨
      ((∃ i, s.queue = some i :: t.queue) ∨ s.queue = t.queue) ∧ t.alive = s.alive := by
  obtain ⟨stage, stage', hw, hstage, htasks, hcases⟩ := h.moves
  have halive := alive_set stage' hw hstage
  rw [← htasks] at halive
  rcases hcases with ⟨hq, hexit⟩ | ⟨hq, hexit⟩
  · rw [if_pos hexit] at halive
    exact .inl ⟨hq, halive⟩
  · rw [if_neg hexit] at halive
    exact .inr ⟨hq, halive⟩

theorem alive_start : s.alive ≤ (start cfg s).alive := by
  unfold start CityWorkerPool.alive
  split
  · exact le_rfl
  · rw [List.countP_append]
    exact Nat.le_add_right _ _

theorem queue_start : (start cfg s).queue = s.queue := by
  unfold start
  split <;> rfl

/-! ## Items that stay served -/

/-- When an `enqueue` puts its item, fewer sentinels are in the queue than workers are alive. -/
def Servable (s : CityWorkerPool) (a : Action) : Prop :=
  ∀ k i, a = .resume k → s.calls[k]? = some (.enqueuing i) → Pills.sentinels s.queue < s.alive

/-- **Step lemma**: served items stay served, and an item put while a worker is left for it is served. -/
theorem served_step {a : Action} (hs : s.Served) (hC : Servable s a)
    (h : (system cfg).step s a = some t) : t.Served := by
  cases a with
  | start =>
      obtain rfl := Option.some.inj h
      rw [CityWorkerPool.Served, queue_start]
      exact hs.mono alive_start
  | stop =>
      obtain rfl := Option.some.inj h
      unfold stop
      split
      · exact hs
      · exact hs
  | enqueue req =>
      obtain rfl := Option.some.inj h
      show Pills.Served (start cfg s).alive (start cfg s).queue
      rw [queue_start]
      exact hs.mono alive_start
  | resume k =>
      cases resumes_of_resume h with
      | puts => exact hs.snoc_none
      | gathers | stops => exact hs
      | enqueues hk => exact hs.snoc_some (hC k _ rfl hk)
  | worker w outcome =>
      rcases (worked_of_works (works_of_work h)).cases with
        ⟨hq, halive⟩ | ⟨⟨i, hq⟩ | hq, halive⟩
      · rw [CityWorkerPool.Served, hq, ← halive] at hs
        exact hs.tail_none
      · rw [CityWorkerPool.Served, hq, ← halive] at hs
        exact hs.tail_some
      · rw [CityWorkerPool.Served, hq, ← halive] at hs
        exact hs
  | governor a =>
      obtain ⟨-, h⟩ := Option.ite_none_right_eq_some.mp h
      obtain ⟨gov, -, rfl⟩ := Option.map_eq_some_iff.mp h
      exact hs

theorem served_of_reach (h : (system cfg).Reach Servable s) : s.Served := by
  refine h.invariant (I := CityWorkerPool.Served) (fun s h₀ => ?_) fun _ _ _ hs hC hst =>
    served_step hs hC hst
  obtain rfl := h₀
  exact Pills.Served.nil

/-- Putting an item behind what is served serves it only if a worker is left for it. -/
theorem served_put_iff {k i : ℕ} (hs : s.Served) (hk : s.calls[k]? = some (.enqueuing i))
    (h : (system cfg).step s (.resume k) = some t) :
    t.Served ↔ Pills.sentinels s.queue < s.alive := by
  have hput : t.queue = s.queue ++ [some i] ∧ t.alive = s.alive := by
    cases resumes_of_resume h with
    | puts hcall | gathers hcall | stops hcall => cases hk.symm.trans hcall
    | enqueues hcall =>
        cases hk.symm.trans hcall
        exact ⟨rfl, rfl⟩
  rw [CityWorkerPool.Served, hput.1, hput.2]
  exact ⟨fun hserved => hserved s.queue i [] rfl, fun hlt => Pills.Served.snoc_some hs hlt⟩

/-! ## Served items are executed -/

/-- The steps a worker has still to make before it is back at the queue, and one for going there. -/
def Stage.ahead : Stage → ℕ
  | .acquiring _ _ => 4
  | .executing _ _ => 3
  | .closing _ _ => 2
  | .atGet => 1
  | .exited => 0

/-- The steps the workers can make before the queue runs dry. -/
def CityWorkerPool.ahead (s : CityWorkerPool) : ℕ :=
  4 * s.queue.length + Pool.total Stage.ahead s.tasks

/-- A worker is at most `ahead` steps from an empty queue. -/
theorem ahead_works (h : Works cfg s w t) : t.ahead < s.ahead := by
  have hset := fun {stage : Stage} (hw : s.tasks[w]? = some stage) (stage' : Stage) =>
    Pool.total_set (w := Stage.ahead) hw stage'
  unfold CityWorkerPool.ahead
  cases h with
  | @ends rest hw hq =>
      have := hset hw .exited
      rw [hq, List.length_cons]
      simp only [Stage.ahead] at this ⊢
      omega
  | @takes i rest item hw hq =>
      have := hset hw (.acquiring i s.gov.calls.length)
      rw [hq, List.length_cons]
      simp only [Stage.ahead] at this ⊢
      omega
  | @executes i c call hw =>
      have := hset hw (.executing i c)
      simp only [Stage.ahead] at this ⊢
      omega
  | @completes i c item result hw =>
      have := hset hw (.closing i c)
      simp only [Stage.ahead] at this ⊢
      omega
  | fails hw | closes hw =>
      have := hset hw .atGet
      simp only [Stage.ahead] at this ⊢
      omega

/-- An admitted call can be released. -/
theorem release_isSome (cfg : PoolConfig) {c : ℕ} {call : Scale.Call} (hc : s.gov.calls[c]? = some call)
    (hcall : call.stage = .admitted) : (Scale.step cfg.toScaleConfig s.gov (.release c)).isSome := by
  simp [Scale.step, Scale.State.move, hc, Scale.release, hcall]

/-- A worker that has not ended goes on, unless it waits at the governor or at an empty queue. -/
theorem work_isSome (hp : s.Placed) (ho : s.Owned) {stage : Stage} (hw : s.tasks[w]? = some stage)
    (hstage : stage ≠ .exited) (hq : s.queue ≠ []) :
    (∀ outcome, (work cfg s w outcome).isSome) ∨
      ∃ i c call, stage = .acquiring i c ∧ s.gov.calls[c]? = some call ∧ call.stage ≠ .admitted := by
  cases stage with
  | atGet =>
      refine .inl fun outcome => ?_
      cases hqueue : s.queue with
      | nil => exact absurd hqueue hq
      | cons entry rest =>
          cases entry with
          | none => simp [work, hw, hqueue]
          | some i =>
              have hwaits : s.Waits i := .inr (by rw [hqueue]; exact List.mem_cons_self)
              obtain ⟨item, hi, -⟩ := hp.item_of_copies (copies_pos_of_waits hwaits)
              simp [work, hw, hqueue, hi, Scale.step]
  | acquiring i c =>
      obtain ⟨-, call, hcall, -⟩ := ho.mem (c := c) (List.mem_of_getElem? hw) rfl
      by_cases hadm : call.stage = .admitted
      · exact .inl fun outcome => by simp [work, hw, hcall, hadm]
      · exact .inr ⟨i, c, call, rfl, hcall, hadm⟩
  | executing i c =>
      obtain ⟨-, call, hcall, -⟩ := ho.mem (c := c) (List.mem_of_getElem? hw) rfl
      have hadm := ho.admitted _ (List.mem_of_getElem? hw) i c (.inl rfl) call hcall
      obtain ⟨item, hi, -⟩ := hp.item_of_copies (copies_pos_of_held (List.mem_of_getElem? hw) rfl)
      obtain ⟨gov, hgov⟩ := Option.isSome_iff_exists.mp (release_isSome cfg hcall hadm)
      have hlt := (List.getElem?_eq_some_iff.mp hi).1
      refine .inl fun outcome => ?_
      cases outcome with
      | ok result => simp [work, hw, hi]
      | error e => simp [work, hw, settle, hgov, hlt]
  | closing i c =>
      obtain ⟨-, call, hcall, -⟩ := ho.mem (c := c) (List.mem_of_getElem? hw) rfl
      have hadm := ho.admitted _ (List.mem_of_getElem? hw) i c (.inr rfl) call hcall
      obtain ⟨item, hi, -⟩ := hp.item_of_copies (copies_pos_of_held (List.mem_of_getElem? hw) rfl)
      obtain ⟨gov, hgov⟩ := Option.isSome_iff_exists.mp (release_isSome cfg hcall hadm)
      exact .inl fun outcome => by simp [work, hw, settle, hgov, hi]
  | exited => exact absurd rfl hstage

/-! ## A `stop` alone -/

/-- `stop` is called when no call is under way, and `enqueue` when no `stop` is. -/
def Alone (s : CityWorkerPool) : Action → Prop
  | .stop => ∀ call ∈ s.calls, call = .returned
  | .enqueue _ => ∀ call ∈ s.calls, call = .returned ∨ ∃ i, call = .enqueuing i
  | _ => True

/-- No `stop` is under way: all workers are alive and nothing in the queue ends one. -/
structure CityWorkerPool.Quiet (s : CityWorkerPool) : Prop where
  calls : ∀ call ∈ s.calls, call = .returned ∨ ∃ i, call = .enqueuing i ∧ s.started = true
  sentinels : Pills.sentinels s.queue = 0
  alive : s.alive = s.workers.length

/-- Call `k` is the one `stop` under way: the workers that are alive, and those for which there is no
    sentinel yet, are as many as the sentinels in the queue. -/
structure CityWorkerPool.Stopping (s : CityWorkerPool) (k : ℕ) : Prop where
  started : s.started = true
  call : (∃ n ≤ s.workers.length, s.calls[k]? = some (.putting n) ∧
      s.alive + n = s.workers.length + Pills.sentinels s.queue) ∨
    s.calls[k]? = some (.gathering s.workers) ∧ s.alive = Pills.sentinels s.queue
  others : ∀ j call, j ≠ k → s.calls[j]? = some call → call = .returned

/-- Who is not in the list of workers has ended, and at most one `stop` is under way. -/
structure CityWorkerPool.Calm (cfg : PoolConfig) (s : CityWorkerPool) : Prop where
  outside : ∀ w stage, s.tasks[w]? = some stage → stage ≠ .exited → w ∈ s.workers
  workers : s.workers.length = if s.started then cfg.workerCount else 0
  phase : s.Quiet ∨ ∃ k, s.Stopping k

/-- The call of the `stop` under way has neither returned nor an item. -/
theorem CityWorkerPool.Stopping.busy {k : ℕ} (h : s.Stopping k) :
    ∃ call, s.calls[k]? = some call ∧ call ≠ .returned ∧ ∀ i, call ≠ .enqueuing i := by
  rcases h.call with ⟨n, -, hcall, -⟩ | ⟨hcall, -⟩
  · exact ⟨_, hcall, nofun, nofun⟩
  · exact ⟨_, hcall, nofun, nofun⟩

/-- All other calls have still returned when it has gone on. -/
theorem CityWorkerPool.Stopping.others_set {k : ℕ} (h : s.Stopping k) (call : PoolCall) :
    ∀ j call', j ≠ k → (s.calls.set k call)[j]? = some call' → call' = .returned := by
  intro j call' hj hcall'
  rw [List.getElem?_set_ne (Ne.symm hj)] at hcall'
  exact h.others j call' hj hcall'

/-- A call that has neither returned nor an item is that `stop`. -/
theorem CityWorkerPool.Calm.stopping {k : ℕ} {call : PoolCall} (hs : s.Calm cfg) (hk : s.calls[k]? = some call)
    (hret : call ≠ .returned) (henq : ∀ i, call ≠ .enqueuing i) : s.Stopping k := by
  rcases hs.phase with hq | ⟨k', hk'⟩
  · rcases hq.calls call (List.mem_of_getElem? hk) with heq | ⟨i, heq, -⟩
    · exact absurd heq hret
    · exact absurd heq (henq i)
  · by_cases hkk : k = k'
    · exact hkk ▸ hk'
    · exact absurd (hk'.others k call hkk hk) hret

/-- No `enqueue` is under way besides a `stop`. -/
theorem CityWorkerPool.Calm.quiet {k i : ℕ} (hs : s.Calm cfg) (hk : s.calls[k]? = some (.enqueuing i)) :
    s.Quiet := by
  rcases hs.phase with hq | ⟨k', hk'⟩
  · exact hq
  · by_cases hkk : k = k'
    · subst hkk
      obtain ⟨call, hcall, -, henq⟩ := hk'.busy
      exact absurd (Option.some.inj (hcall.symm.trans hk)) (henq i)
    · cases hk'.others k _ hkk hk

theorem calm_init : (CityWorkerPool.new cfg).Calm cfg where
  outside w stage hw := by simp [CityWorkerPool.new] at hw
  workers := rfl
  phase := .inl ⟨by simp [CityWorkerPool.new], rfl, rfl⟩

theorem calm_start (hs : s.Calm cfg) : (start cfg s).Calm cfg := by
  unfold start
  split
  · exact hs
  · next hstarted =>
      have hnone : s.workers = [] := by
        have hlen := hs.workers
        rw [if_neg hstarted] at hlen
        exact List.length_eq_zero_iff.mp hlen
      rcases hs.phase with hq | ⟨k, hk⟩
      · refine ⟨fun w stage hw hstage => ?_, ?_, .inl ⟨fun call hcall => ?_, hq.sentinels, ?_⟩⟩
        · rcases Nat.lt_or_ge w s.tasks.length with hlt | hge
          · rw [List.getElem?_append_left hlt] at hw
            exact List.mem_append_left _ (hs.outside w stage hw hstage)
          · have hlt := (List.getElem?_eq_some_iff.mp hw).1
            rw [List.length_append, List.length_replicate] at hlt
            exact List.mem_append_right _ (List.mem_range'_1.mpr ⟨hge, hlt⟩)
        · show (s.workers ++ List.range' s.tasks.length cfg.workerCount).length = cfg.workerCount
          rw [hnone, List.nil_append, List.length_range']
        · rcases hq.calls call hcall with hret | ⟨i, -, hst⟩
          · exact .inl hret
          · exact absurd hst hstarted
        · show (s.tasks ++ List.replicate cfg.workerCount Stage.atGet).countP _ =
            (s.workers ++ List.range' s.tasks.length cfg.workerCount).length
          rw [List.countP_append, List.countP_replicate, List.length_append, List.length_range']
          exact congrArg (· + cfg.workerCount) hq.alive
      · exact absurd hk.started hstarted

theorem calm_stop (hs : s.Calm cfg) (hC : Alone s .stop) : (stop s).Calm cfg := by
  unfold stop
  split
  · next hstarted =>
      rcases hs.phase with hq | ⟨k, hk⟩
      · refine ⟨hs.outside, hs.workers, .inr ⟨s.calls.length, hstarted, .inl ⟨0, Nat.zero_le _, ?_, ?_⟩, ?_⟩⟩
        · exact List.getElem?_concat_length ..
        · show s.alive + 0 = s.workers.length + Pills.sentinels s.queue
          rw [hq.sentinels, hq.alive]
        · intro j call hj hcall
          rcases Nat.lt_or_ge j s.calls.length with hlt | hge
          · rw [List.getElem?_append_left hlt] at hcall
            exact hC call (List.mem_of_getElem? hcall)
          · have hlt := (List.getElem?_eq_some_iff.mp hcall).1
            rw [List.length_append, List.length_singleton] at hlt
            omega
      · obtain ⟨call, hcall, hret, -⟩ := hk.busy
        exact absurd (hC call (List.mem_of_getElem? hcall)) hret
  · exact hs

theorem calm_enqueue {req : Scale.Request} (hs : s.Calm cfg) (hC : Alone s (.enqueue req)) :
    (enqueue cfg s req).Calm cfg := by
  have hstart := calm_start hs
  have hcalls : (start cfg s).calls = s.calls := (start_same cfg s).2.1
  have hstarted : (start cfg s).started = true := by
    unfold start
    split
    · assumption
    · rfl
  refine ⟨hstart.outside, hstart.workers, ?_⟩
  rcases hstart.phase with hq | ⟨k, hk⟩
  · refine .inl ⟨fun call hcall => ?_, hq.sentinels, hq.alive⟩
    rcases List.mem_append.mp hcall with hold | hnew
    · exact hq.calls call hold
    · exact .inr ⟨_, List.mem_singleton.mp hnew, hstarted⟩
  · obtain ⟨call, hcall, hret, henq⟩ := hk.busy
    rcases hC call (hcalls ▸ List.mem_of_getElem? hcall) with heq | ⟨i, heq⟩
    · exact absurd heq hret
    · exact absurd heq (henq i)

theorem calm_resumes {k : ℕ} (hs : s.Calm cfg) (h : Resumes cfg s k t) : t.Calm cfg := by
  have hlt : ∀ {call : PoolCall}, s.calls[k]? = some call → k < s.calls.length :=
    fun hk => (List.getElem?_eq_some_iff.mp hk).1
  cases h with
  | @puts n hk hn =>
      have hst := hs.stopping hk nofun nofun
      refine ⟨hs.outside, hs.workers, .inr ⟨k, hst.started, .inl ⟨n + 1, hn, ?_, ?_⟩, hst.others_set _⟩⟩
      · exact List.getElem?_set_self (hlt hk)
      · show s.alive + (n + 1) = s.workers.length + Pills.sentinels (s.queue ++ [none])
        rcases hst.call with ⟨n', -, hcall, hsum⟩ | ⟨hcall, -⟩
        · cases hk.symm.trans hcall
          rw [Pills.sentinels_append, Pills.sentinels_none, Pills.sentinels_nil]
          omega
        · cases hk.symm.trans hcall
  | @gathers n hk hn =>
      have hst := hs.stopping hk nofun nofun
      refine ⟨hs.outside, hs.workers, .inr ⟨k, hst.started, .inr ⟨?_, ?_⟩, hst.others_set _⟩⟩
      · exact List.getElem?_set_self (hlt hk)
      · show s.alive = Pills.sentinels s.queue
        rcases hst.call with ⟨n', hle, hcall, hsum⟩ | ⟨hcall, -⟩
        · cases hk.symm.trans hcall
          omega
        · cases hk.symm.trans hcall
  | @stops ts hk hts =>
      have hst := hs.stopping hk nofun nofun
      rcases hst.call with ⟨n', -, hcall, -⟩ | ⟨hcall, hsum⟩
      · cases hk.symm.trans hcall
      cases hk.symm.trans hcall
      -- all workers have ended, so nobody is alive and no sentinel is left over
      have hexited : ∀ stage ∈ s.tasks, stage = .exited := by
        intro stage hstage
        obtain ⟨w, hw⟩ := List.mem_iff_getElem?.mp hstage
        by_contra hne
        cases (hts w (hs.outside w stage hw hne)).symm.trans hw
        exact hne rfl
      have halive : s.alive = 0 :=
        List.countP_eq_zero.mpr fun stage hstage => by simp [hexited stage hstage]
      refine ⟨fun w stage hw hne => absurd (hexited stage (List.mem_of_getElem? hw)) hne, rfl,
        .inl ⟨fun call hcall => ?_, hsum.symm.trans halive, halive⟩⟩
      obtain ⟨j, hj⟩ := List.mem_iff_getElem?.mp hcall
      by_cases hjk : j = k
      · subst hjk
        rw [List.getElem?_set_self (hlt hk)] at hj
        exact .inl (Option.some.inj hj).symm
      · exact .inl (hst.others_set _ j call hjk hj)
  | @enqueues i hk =>
      have hq := hs.quiet hk
      refine ⟨hs.outside, hs.workers, .inl ⟨Pool.forall_set hq.calls (.inl rfl), ?_, hq.alive⟩⟩
      show Pills.sentinels (s.queue ++ [some i]) = 0
      rw [Pills.sentinels_append, Pills.sentinels_some, Pills.sentinels_nil, hq.sentinels]

theorem calm_worked (hs : s.Calm cfg) (h : Worked s t w) : t.Calm cfg := by
  have houtside : ∀ v stage, t.tasks[v]? = some stage → stage ≠ .exited → v ∈ t.workers := by
    obtain ⟨stage₀, stage', hw, hne, htasks, -⟩ := h.moves
    intro v stage hv hstage
    rw [h.workers]
    by_cases hvw : w = v
    · subst hvw
      exact hs.outside w stage₀ hw hne
    · rw [htasks, List.getElem?_set_ne hvw] at hv
      exact hs.outside v stage hv hstage
  have hcount : (∃ n, s.alive = t.alive + n ∧ Pills.sentinels s.queue = Pills.sentinels t.queue + n) := by
    rcases h.cases with ⟨hq, halive⟩ | ⟨⟨i, hq⟩ | hq, halive⟩
    · exact ⟨1, halive.symm, by rw [hq, Pills.sentinels_none]⟩
    · exact ⟨0, halive.symm, by rw [hq, Pills.sentinels_some]; rfl⟩
    · exact ⟨0, halive.symm, by rw [hq]; rfl⟩
  obtain ⟨n, halive, hsent⟩ := hcount
  refine ⟨houtside, by rw [h.workers, h.started]; exact hs.workers, ?_⟩
  rcases hs.phase with hq | ⟨k, hk⟩
  · refine .inl ⟨by rw [h.calls, h.started]; exact hq.calls, ?_, ?_⟩
    · have := hq.sentinels
      omega
    · have := hq.sentinels
      have := hq.alive
      rw [h.workers]
      omega
  · refine .inr ⟨k, h.started.trans hk.started, ?_, by rw [h.calls]; exact hk.others⟩
    rw [h.calls, h.workers]
    rcases hk.call with ⟨m, hle, hcall, hsum⟩ | ⟨hcall, hsum⟩
    · exact .inl ⟨m, hle, hcall, by omega⟩
    · exact .inr ⟨hcall, by omega⟩

theorem calm_step {a : Action} (hs : s.Calm cfg) (hC : Alone s a) (h : (system cfg).step s a = some t) :
    t.Calm cfg := by
  cases a with
  | start => exact Option.some.inj h ▸ calm_start hs
  | stop => exact Option.some.inj h ▸ calm_stop hs hC
  | enqueue req => exact Option.some.inj h ▸ calm_enqueue hs hC
  | resume k => exact calm_resumes hs (resumes_of_resume h)
  | worker w outcome => exact calm_worked hs (worked_of_works (works_of_work h))
  | governor a =>
      obtain ⟨-, h⟩ := Option.ite_none_right_eq_some.mp h
      obtain ⟨gov, -, rfl⟩ := Option.map_eq_some_iff.mp h
      exact ⟨hs.outside, hs.workers, hs.phase.imp (fun hq => ⟨hq.calls, hq.sentinels, hq.alive⟩)
        fun ⟨k, hk⟩ => ⟨k, hk.started, hk.call, hk.others⟩⟩

/-- In a calm pool an `enqueue` finds all workers alive and no sentinel. -/
theorem CityWorkerPool.Calm.servable (hs : s.Calm cfg) (a : Action) : Servable s a := by
  intro k i _ hk
  have hq := hs.quiet hk
  rcases hq.calls _ (List.mem_of_getElem? hk) with heq | ⟨j, -, hstarted⟩
  · cases heq
  · have hlen := hs.workers
    rw [hstarted, if_pos rfl] at hlen
    rw [hq.sentinels, hq.alive, hlen]
    exact cfg.workers_pos

theorem reach_servable (h : (system cfg).Reach Alone s) : (system cfg).Reach Servable s := by
  have hboth : s.Calm cfg ∧ (system cfg).Reach Servable s := by
    refine h.invariant (I := fun s => s.Calm cfg ∧ (system cfg).Reach Servable s) (fun s h₀ => ?_)
      fun s a t hs hC hst => ⟨calm_step hs.1 hC hst, hs.2.tail (hs.1.servable a) hst⟩
    obtain rfl := h₀
    exact ⟨calm_init, .init rfl⟩
  exact hboth.2

end

/-- **No stranded work**: in every state of a run whose `enqueue` calls put their items while fewer
    sentinels are queued than workers alive, the workers take all queued items before the sentinels have
    ended them. As long as an item is queued some worker goes on, unless it waits for its admission, and
    workers are only so many steps from an empty queue. A put that breaks the condition strands its item for
    the workers there are, and runs in which a `stop` is alone have none. -/
theorem items_served {cfg : PoolConfig} {s : CityWorkerPool} :
    ((system cfg).Reach Servable s →
      Pills.taken s.alive s.queue = s.queue.reduceOption ∧
      (∀ pre i post, s.queue = pre ++ some i :: post → Pills.sentinels pre < s.alive) ∧
      (∀ i, some i ∈ s.queue → ∃ w stage, s.tasks[w]? = some stage ∧ stage ≠ .exited ∧
        ((∀ outcome, (work cfg s w outcome).isSome) ∨ ∃ j c call, stage = .acquiring j c ∧
          s.gov.calls[c]? = some call ∧ call.stage ≠ .admitted)) ∧
      (∀ w outcome t, work cfg s w outcome = some t → t.ahead < s.ahead) ∧
      ∀ k i t, s.calls[k]? = some (.enqueuing i) → (system cfg).step s (.resume k) = some t →
        (Pills.taken t.alive t.queue = t.queue.reduceOption ↔ Pills.sentinels s.queue < s.alive)) ∧
    ((system cfg).Reach Alone s → (system cfg).Reach Servable s) := by
  refine ⟨fun h => ?_, reach_servable⟩
  have hserved := served_of_reach h
  refine ⟨Pills.taken_eq_iff.mpr hserved, hserved, fun i hi => ?_,
    fun w outcome t hst => ahead_works (works_of_work hst),
    fun k i t hk hst => Pills.taken_eq_iff.trans (served_put_iff hserved hk hst)⟩
  obtain ⟨stage, hmem, hstage⟩ := List.countP_pos_iff.mp (hserved.pos hi)
  obtain ⟨w, hw⟩ := List.mem_iff_getElem?.mp hmem
  have hstage := of_decide_eq_true hstage
  exact ⟨w, stage, hw, hstage, work_isSome (placed_of_reachable h.any) (owned_of_reachable h.any) hw hstage
    (List.ne_nil_of_mem hi)⟩

/-- An item that waits for the one worker is taken. -/
theorem items_served_onePut :
    ∃ s, (system onePool).exec (.new onePool) [.enqueue Scale.buildRequest, .resume 0] = some s ∧
      s.queue = [some 0] ∧ Pills.taken s.alive s.queue = [0] := by
  have hex : (((system onePool).exec (.new onePool) [.enqueue Scale.buildRequest, .resume 0]).any fun s =>
      s.queue = [some 0]) = true := by decide +kernel
  obtain ⟨s, hrun, hp⟩ := System.exists_of_exec hex
  have hq := of_decide_eq_true hp
  have hmeets : (system onePool).Meets Alone (.new onePool) [.enqueue Scale.buildRequest, .resume 0] :=
    ⟨nofun, fun _ _ => ⟨trivial, fun _ _ => trivial⟩⟩
  obtain ⟨htaken, -⟩ := items_served.1 (items_served.2 ⟨_, rfl, System.run_of_meets hrun hmeets⟩)
  refine ⟨s, hrun, hq, htaken.trans ?_⟩
  rw [hq]
  rfl

/-- `stop` ends the one worker, and before it returns an `enqueue` finds the pool started. -/
def enqueueDuringStop : List Action :=
  [.start, .stop, .resume 0, .resume 0, .worker 0 (.ok []), .enqueue Scale.buildRequest, .resume 1, .resume 0]

/-- All calls have returned, an item is in the queue, and nobody is left to take it. -/
theorem enqueue_during_stop_strands :
    ∃ s, (system onePool).Reachable s ∧ (∀ call ∈ s.calls, call = .returned) ∧ s.queue = [some 0] ∧
      (∀ stage ∈ s.tasks, stage = .exited) ∧ s.items.map CityWorkItem.done = [false] := by
  have hex : (((system onePool).exec (.new onePool) enqueueDuringStop).any fun s =>
      s.calls.all (fun call => call = .returned) && s.queue = [some 0] &&
        s.tasks.all (fun stage => stage = .exited) && s.items.map CityWorkItem.done = [false]) = true := by
    decide +kernel
  obtain ⟨s, hrun, hp⟩ := System.exists_of_exec hex
  simp only [Bool.and_eq_true, decide_eq_true_eq, List.all_eq_true] at hp
  obtain ⟨⟨⟨hcalls, hq⟩, htasks⟩, hitems⟩ := hp
  exact ⟨s, System.reachable_of_exec rfl hrun, hcalls, hq, htasks, hitems⟩

end Persola.City.Worker
