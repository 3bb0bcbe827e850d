import Persola.City.WorkItems
import Persola.City.Counters

/-!
# `City.WorkerBooks` — the accounts of the worker pool

Besides its items a pool has calls of the governor, one for each item in flight: `Owned` counts the workers
that have a call, one until it is released. With the books over the items this bounds what the pool holds of
the governor by what it has in flight, and, as long as nobody stops it, by the number of its workers.
-/

namespace Persola.City.Worker

open Runs

/-! ## The pool and the governor -/

/-- One for a governor call of a worker that is not released. -/
def CityWorkerPool.unreleased (s : CityWorkerPool) (c : ℕ) : ℕ :=
  if c ∈ s.owned ∧ (s.gov.calls[c]?).any (fun call => call.stage ≠ .released) then 1 else 0

/-- Every call a worker made is with one worker until it is released, and admitted while that worker awaits
    its batch or closes the session. -/
structure CityWorkerPool.Owned (s : CityWorkerPool) : Prop where
  nodup : s.owned.Nodup
  made : ∀ c ∈ s.owned, c < s.gov.calls.length
  one : ∀ c, s.tasks.countP (fun stage => stage.call? = some c) = s.unreleased c
  admitted : ∀ stage ∈ s.tasks, ∀ i c, stage = .executing i c ∨ stage = .closing i c →
    ∀ call, s.gov.calls[c]? = some call → call.stage = .admitted

section
variable {cfg : PoolConfig} {s t : CityWorkerPool} {w c : ℕ} {stage stage' : Stage}

theorem owned_init : (CityWorkerPool.new cfg).Owned where
  nodup := List.nodup_nil
  made _ hc := by simp [CityWorkerPool.new] at hc
  one c := by simp [CityWorkerPool.new, CityWorkerPool.unreleased]
  admitted _ hstage := by simp [CityWorkerPool.new] at hstage

/-- The call of a worker is one of the pool's. -/
theorem CityWorkerPool.Owned.mem (hs : s.Owned) (hw : stage ∈ s.tasks) (hc : stage.call? = some c) :
    c ∈ s.owned ∧ ∃ call, s.gov.calls[c]? = some call ∧ call.stage ≠ .released := by
  have hpos : 0 < s.tasks.countP (fun stage => stage.call? = some c) :=
    List.countP_pos_iff.mpr ⟨stage, hw, decide_eq_true hc⟩
  rw [hs.one] at hpos
  unfold CityWorkerPool.unreleased at hpos
  split at hpos
  · next h =>
      obtain ⟨call, hcall, hne⟩ := (Option.any_eq_true ..).mp h.2
      exact ⟨h.1, call, hcall, of_decide_eq_true hne⟩
  · exact absurd hpos (Nat.lt_irrefl 0)

/-- Once a worker has let go of its call, no worker has it. -/
theorem CityWorkerPool.Owned.call_once (hs : s.Owned) (hw : s.tasks[w]? = some stage)
    (hc : stage.call? = some c) : ∀ stage₁ ∈ s.tasks.set w .atGet, stage₁.call? ≠ some c := by
  have hle : s.tasks.countP (fun stage => stage.call? = some c) ≤ 1 := by
    rw [hs.one]
    unfold CityWorkerPool.unreleased
    split
    · exact le_rfl
    · exact Nat.zero_le _
  intro stage₁ hmem
  rcases Pool.others_of_countP_le_one hle hw (decide_eq_true hc) hmem with rfl | ⟨-, hne⟩
  · exact nofun
  · exact of_decide_eq_false hne

/-- **The pool holds no more admissions than workers that have an item.** -/
theorem CityWorkerPool.Owned.admitted_le (hs : s.Owned) :
    s.owned.countP (fun c => (s.gov.calls[c]?).any (fun call => call.stage = .admitted)) ≤
      s.tasks.countP (fun stage => stage.item?.isSome) := by
  have hcalls : (s.tasks.filterMap Stage.call?).length = s.tasks.countP (fun stage => stage.item?.isSome) := by
    rw [List.length_filterMap_eq_countP]
    exact List.countP_congr fun stage _ => by cases stage <;> rfl
  rw [List.countP_eq_length_filter, ← hcalls]
  refine (List.subperm_of_subset (hs.nodup.filter _) fun c hc => ?_).length_le
  obtain ⟨howned, hadm⟩ := List.mem_filter.mp hc
  obtain ⟨call, hcall, hstage⟩ := (Option.any_eq_true ..).mp hadm
  have hone := hs.one c
  unfold CityWorkerPool.unreleased at hone
  rw [if_pos ⟨howned, by simp [hcall, of_decide_eq_true hstage]⟩] at hone
  obtain ⟨stage, hmem, hst⟩ :=
    List.countP_pos_iff.mp (show 0 < s.tasks.countP (fun stage => decide (stage.call? = some c)) by omega)
  exact List.mem_filterMap.mpr ⟨stage, hmem, of_decide_eq_true hst⟩

/-! ## Every step keeps the calls -/

/-- The calls of the pool stay as they are, and no task takes one. -/
theorem CityWorkerPool.Owned.frame (hs : s.Owned) (howned : t.owned = s.owned) (hgov : t.gov = s.gov)
    (hcount : ∀ c, t.tasks.countP (fun stage => stage.call? = some c) =
      s.tasks.countP (fun stage => stage.call? = some c))
    (htasks : ∀ stage ∈ t.tasks, stage ∈ s.tasks ∨ stage.call? = none) : t.Owned where
  nodup := howned ▸ hs.nodup
  made c hc := hgov ▸ hs.made c (howned ▸ hc)
  one c := by
    rw [hcount, hs.one]
    unfold CityWorkerPool.unreleased
    rw [howned, hgov]
  admitted stage hstage i c hst call hcall := by
    rw [hgov] at hcall
    rcases htasks stage hstage with hold | hnone
    · exact hs.admitted stage hold i c hst call hcall
    · rcases hst with rfl | rfl <;> cases hnone

/-- A worker keeps its call, admitted if it goes on to its batch. -/
theorem CityWorkerPool.Owned.goes_on (hs : s.Owned) (hw : s.tasks[w]? = some stage)
    (hc : stage.call? = some c) (hc' : stage'.call? = some c)
    (hadm : ∀ call, s.gov.calls[c]? = some call → call.stage = .admitted)
    (howned : t.owned = s.owned) (hgov : t.gov = s.gov) (htasks : t.tasks = s.tasks.set w stage') : t.Owned where
  nodup := howned ▸ hs.nodup
  made c hc := hgov ▸ hs.made c (howned ▸ hc)
  one j := by
    have hset := Pool.countP_set (f := fun stage => decide (stage.call? = some j)) hw stage'
    simp only [hc, hc'] at hset
    rw [htasks, Nat.add_right_cancel hset, hs.one]
    unfold CityWorkerPool.unreleased
    rw [howned, hgov]
  admitted stage₁ hstage₁ i j hst call hcall := by
    rw [hgov] at hcall
    rw [htasks] at hstage₁
    rcases List.mem_or_eq_of_mem_set hstage₁ with hold | rfl
    · exact hs.admitted stage₁ hold i j hst call hcall
    · have hj : some j = some c := by rcases hst with rfl | rfl <;> exact hc'
      obtain rfl := Option.some.inj hj
      exact hadm call hcall

/-- A worker calls `acquire`. -/
theorem CityWorkerPool.Owned.calls (hs : s.Owned) {req : Scale.Request} {i : ℕ}
    (hw : s.tasks[w]? = some .atGet) (howned : t.owned = s.gov.calls.length :: s.owned)
    (hgov : t.gov = { s.gov with calls := s.gov.calls ++ [⟨req, .atFamilySem⟩] })
    (htasks : t.tasks = s.tasks.set w (.acquiring i s.gov.calls.length)) : t.Owned := by
  have hnew : s.gov.calls.length ∉ s.owned := fun h => (hs.made _ h).ne rfl
  have hcalls : t.gov.calls = s.gov.calls ++ [⟨req, .atFamilySem⟩] := by rw [hgov]
  refine ⟨howned ▸ List.nodup_cons.mpr ⟨hnew, hs.nodup⟩, fun c hc => ?_, fun c => ?_,
    fun stage hstage j c hst call hcall => ?_⟩
  · rw [howned] at hc
    rw [hcalls, List.length_append, List.length_singleton]
    rcases List.mem_cons.mp hc with rfl | hc
    · exact Nat.lt_succ_self _
    · exact Nat.lt_succ_of_lt (hs.made c hc)
  · have hset := Pool.countP_set (f := fun stage => decide (stage.call? = some c)) hw
      (.acquiring i s.gov.calls.length)
    have hone := hs.one c
    have hst : (Stage.acquiring i s.gov.calls.length).call? = some c ↔ s.gov.calls.length = c := by
      simp [Stage.call?]
    rw [if_neg (by simp [Stage.call?]), Nat.add_zero, if_congr decide_eq_true_iff rfl rfl,
      if_congr hst rfl rfl] at hset
    unfold CityWorkerPool.unreleased at hone ⊢
    rw [htasks, hset, hone, howned, hcalls]
    by_cases hc : s.gov.calls.length = c
    · subst hc
      simp [hnew]
    · rw [if_neg (c := _ = c) hc, Nat.add_zero]
      by_cases hmem : c ∈ s.owned
      · rw [List.getElem?_append_left (hs.made c hmem)]
        simp [hmem]
      · simp [hmem, Ne.symm hc]
  · rw [htasks] at hstage
    rcases List.mem_or_eq_of_mem_set hstage with hold | rfl
    · obtain ⟨howned, -⟩ := hs.mem (c := c) hold (by rcases hst with rfl | rfl <;> rfl)
      rw [hcalls, List.getElem?_append_left (hs.made c howned)] at hcall
      exact hs.admitted stage hold j c hst call hcall
    · rcases hst with h | h <;> cases h

/-- A worker releases its call. -/
theorem CityWorkerPool.Owned.releases (hs : s.Owned) {gov : Scale.State} (hw : s.tasks[w]? = some stage)
    (hc : stage.call? = some c) (hrel : Scale.step cfg.toScaleConfig s.gov (.release c) = some gov)
    (howned : t.owned = s.owned) (hgov : t.gov = gov) (htasks : t.tasks = s.tasks.set w .atGet) : t.Owned := by
  obtain ⟨call, g', stage₀, hcall, hr, rfl⟩ := Scale.State.move_eq_some hrel
  obtain ⟨-, rfl⟩ := Scale.stage_of_release hr
  have hcalls : t.gov.calls = s.gov.calls.set c { call with stage := .released } := by rw [hgov]
  have hother := hs.call_once hw hc
  obtain ⟨hmem, call₁, hcall₁, hne⟩ := hs.mem (List.mem_of_getElem? hw) hc
  obtain rfl := Option.some.inj (hcall.symm.trans hcall₁)
  refine ⟨howned ▸ hs.nodup, fun j hj => ?_, fun j => ?_, fun stage₁ hstage₁ i j hst call₁ hcall₁ => ?_⟩
  · rw [hcalls, List.length_set]
    exact hs.made j (howned ▸ hj)
  · have hset := Pool.countP_set (f := fun stage => decide (stage.call? = some j)) hw .atGet
    have hone := hs.one j
    unfold CityWorkerPool.unreleased at hone ⊢
    rw [htasks, howned, hcalls]
    by_cases hcj : c = j
    · subst hcj
      rw [List.getElem?_set_self (List.getElem?_eq_some_iff.mp hcall).1, if_neg (by simp)]
      exact List.countP_eq_zero.mpr fun stage₁ hstage₁ => by simpa using hother stage₁ hstage₁
    · rw [List.getElem?_set_ne hcj, ← hone]
      rw [hc, if_neg (by simpa using hcj), if_neg (by simp [Stage.call?])] at hset
      exact hset
  · rw [htasks] at hstage₁
    have hcj : c ≠ j := by
      rintro rfl
      exact hother stage₁ hstage₁ (by rcases hst with rfl | rfl <;> rfl)
    rw [hcalls, List.getElem?_set_ne hcj] at hcall₁
    rcases List.mem_or_eq_of_mem_set hstage₁ with hold | rfl
    · exact hs.admitted stage₁ hold i j hst call₁ hcall₁
    · rcases hst with h | h <;> cases h

theorem owned_works (hs : s.Owned) (h : Works cfg s w t) : t.Owned := by
  cases h with
  | ends hw =>
      refine hs.frame rfl rfl (fun c => ?_) fun stage hstage => ?_
      · have hset := Pool.countP_set (f := fun stage => decide (stage.call? = some c)) hw .exited
        exact Nat.add_right_cancel hset
      · rcases List.mem_or_eq_of_mem_set hstage with hold | rfl
        · exact .inl hold
        · exact .inr rfl
  | takes hw => exact hs.calls hw rfl rfl rfl
  | @executes i c call hw hc hcall =>
      refine hs.goes_on (c := c) hw rfl rfl (fun call' hc' => ?_) rfl rfl rfl
      obtain rfl := Option.some.inj (hc.symm.trans hc')
      exact hcall
  | @completes i c item result hw =>
      exact hs.goes_on (c := c) hw rfl rfl (hs.admitted _ (List.mem_of_getElem? hw) i c (.inl rfl)) rfl rfl rfl
  | fails hw _ hgov => exact hs.releases hw rfl hgov rfl rfl rfl
  | closes hw _ hgov => exact hs.releases hw rfl hgov rfl rfl rfl

/-- What others do to a call of the pool: nothing but letting it go on. -/
theorem governor_keeps {a : Scale.Action} {gov : Scale.State} {call : Scale.Call} (ha : s.allows a)
    (h : Scale.step cfg.toScaleConfig s.gov a = some gov) (hc : c ∈ s.owned)
    (hcall : s.gov.calls[c]? = some call) :
    ∃ call', gov.calls[c]? = some call' ∧ (call.stage = .admitted → call'.stage = .admitted) ∧
      (call'.stage = .released ↔ call.stage = .released) := by
  have hlt := (List.getElem?_eq_some_iff.mp hcall).1
  have hkept : ∀ {i : ℕ} {call' : Scale.Call}, i ≠ c → ∃ call'', (s.gov.calls.set i call')[c]? = some call'' ∧
      (call.stage = .admitted → call''.stage = .admitted) ∧
      (call''.stage = .released ↔ call.stage = .released) := by
    intro i call' hic
    rw [List.getElem?_set_ne hic]
    exact ⟨call, hcall, id, Iff.rfl⟩
  cases a with
  | call req =>
      obtain rfl := Option.some.inj h
      exact ⟨call, (List.getElem?_append_left hlt).trans hcall, id, Iff.rfl⟩
  | proceed i =>
      obtain ⟨call₀, g', stage, hi, hacq, rfl⟩ := Scale.State.move_eq_some h
      by_cases hic : i = c
      · subst hic
        obtain rfl := Option.some.inj (hcall.symm.trans hi)
        obtain ⟨hadm, hrel, hrel'⟩ := Scale.stage_of_acquire hacq
        exact ⟨_, List.getElem?_set_self hlt, fun h => absurd h hadm, fun h => absurd h hrel',
          fun h => absurd h hrel⟩
      · exact hkept hic
  | interrupt i e =>
      obtain ⟨call₀, g', stage, hi, -, rfl⟩ := Scale.State.move_eq_some (f := fun g c => Scale.interrupt g c e) h
      exact hkept fun hic => of_decide_eq_true ha (hic ▸ hc)
  | release i =>
      obtain ⟨call₀, g', stage, hi, -, rfl⟩ := Scale.State.move_eq_some h
      exact hkept fun hic => of_decide_eq_true ha (hic ▸ hc)

theorem owned_governor {a : Scale.Action} {gov : Scale.State} (hs : s.Owned) (ha : s.allows a)
    (h : Scale.step cfg.toScaleConfig s.gov a = some gov) : ({ s with gov } : CityWorkerPool).Owned := by
  have hget : ∀ c ∈ s.owned, ∃ call, s.gov.calls[c]? = some call :=
    fun c hc => ⟨_, List.getElem?_eq_getElem (hs.made c hc)⟩
  refine ⟨hs.nodup, fun c hc => ?_, fun c => ?_, fun stage hstage i c hst call hcall => ?_⟩
  · obtain ⟨call, hcall⟩ := hget c hc
    obtain ⟨call', hcall', -, -⟩ := governor_keeps ha h hc hcall
    exact (List.getElem?_eq_some_iff.mp hcall').1
  · refine (hs.one c).trans ?_
    unfold CityWorkerPool.unreleased
    by_cases hc : c ∈ s.owned
    · obtain ⟨call, hcall⟩ := hget c hc
      obtain ⟨call', hcall', -, hiff⟩ := governor_keeps ha h hc hcall
      simp [hc, hcall, hcall', hiff]
    · rw [if_neg fun h => hc h.1, if_neg fun h => hc h.1]
  · obtain ⟨hc, call₀, hcall₀, -⟩ := hs.mem (c := c) hstage (by rcases hst with rfl | rfl <;> rfl)
    obtain ⟨call', hcall', hadm, -⟩ := governor_keeps ha h hc hcall₀
    obtain rfl := Option.some.inj (hcall'.symm.trans hcall)
    exact hadm (hs.admitted stage hstage i c hst call₀ hcall₀)

theorem owned_start (cfg : PoolConfig) (hs : s.Owned) : (start cfg s).Owned := by
  unfold start
  split
  · exact hs
  · refine hs.frame rfl rfl (fun c => ?_) fun stage hstage => ?_
    · simp [List.countP_append, List.countP_replicate, Stage.call?]
    · rcases List.mem_append.mp hstage with hold | hnew
      · exact .inl hold
      · rw [List.eq_of_mem_replicate hnew]
        exact .inr rfl

/-- **Step lemma** of the calls. -/
theorem owned_step {a : Action} (hs : s.Owned) (h : (system cfg).step s a = some t) : t.Owned := by
  cases a with
  | start => exact Option.some.inj h ▸ owned_start cfg hs
  | stop =>
      obtain rfl := Option.some.inj h
      unfold stop
      split
      · exact hs.frame rfl rfl (fun _ => rfl) fun _ h => .inl h
      · exact hs
  | enqueue req =>
      obtain rfl := Option.some.inj h
      exact (owned_start cfg hs).frame rfl rfl (fun _ => rfl) fun _ h => .inl h
  | resume k =>
      cases resumes_of_resume h with
      | puts | gathers | stops | enqueues => exact hs.frame rfl rfl (fun _ => rfl) fun _ h => .inl h
  | worker w outcome => exact owned_works hs (works_of_work h)
  | governor a =>
      obtain ⟨ha, h⟩ := Option.ite_none_right_eq_some.mp h
      obtain ⟨gov, hgov, rfl⟩ := Option.map_eq_some_iff.mp h
      exact owned_governor hs ha hgov

theorem owned_of_reachable (h : (system cfg).Reachable s) : s.Owned := by
  refine h.invariant (I := CityWorkerPool.Owned) (fun s h₀ => ?_) fun _ _ _ hs _ hst => owned_step hs hst
  obtain rfl := h₀
  exact owned_init

/-! ## A pool nobody stops -/

/-- The step condition that `stop` is not called. -/
def NoStop (_ : CityWorkerPool) (a : Action) : Prop := a ≠ .stop

/-- The pool starts its workers once, and only `enqueue` is under way. -/
structure CityWorkerPool.Steady (cfg : PoolConfig) (s : CityWorkerPool) : Prop where
  calls : ∀ call ∈ s.calls, call = .returned ∨ ∃ i, call = .enqueuing i
  tasks : s.tasks.length = if s.started then cfg.workerCount else 0

theorem steady_start (hs : s.Steady cfg) : (start cfg s).Steady cfg ∧ (start cfg s).started = true := by
  cases hstarted : s.started with
  | true =>
      have hsame : start cfg s = s := if_pos hstarted
      rw [hsame]
      exact ⟨hs, hstarted⟩
  | false =>
      have hlen := hs.tasks
      have hnew : (start cfg s).tasks = s.tasks ++ List.replicate cfg.workerCount .atGet := by
        simp [start, hstarted]
      have hcalls : (start cfg s).calls = s.calls := by simp [start, hstarted]
      have hstarted' : (start cfg s).started = true := by simp [start, hstarted]
      refine ⟨⟨hcalls ▸ hs.calls, ?_⟩, hstarted'⟩
      rw [hnew, hstarted', List.length_append, List.length_replicate, hlen, hstarted]
      simp

theorem steady_works (hs : s.Steady cfg) (h : Works cfg s w t) : t.Steady cfg := by
  cases h with
  | ends | takes | executes | completes | fails | closes =>
      exact ⟨hs.calls, (List.length_set ..).trans hs.tasks⟩

theorem steady_step {a : Action} (hs : s.Steady cfg) (hC : NoStop s a)
    (h : (system cfg).step s a = some t) : t.Steady cfg := by
  cases a with
  | start => exact Option.some.inj h ▸ (steady_start hs).1
  | stop => exact absurd rfl hC
  | enqueue req =>
      obtain rfl := Option.some.inj h
      obtain ⟨hstart, -⟩ := steady_start hs
      refine ⟨fun call hcall => ?_, hstart.tasks⟩
      rcases List.mem_append.mp hcall with hold | hnew
      · exact hstart.calls call hold
      · exact .inr ⟨_, List.mem_singleton.mp hnew⟩
  | resume k =>
      -- no `stop` is there to go on
      have hk : ∀ {call : PoolCall}, s.calls[k]? = some call → call = .returned ∨ ∃ i, call = .enqueuing i :=
        fun hcall => hs.calls _ (List.mem_of_getElem? hcall)
      cases resumes_of_resume h with
      | puts hcall | gathers hcall | stops hcall =>
          rcases hk hcall with heq | ⟨i, heq⟩ <;> cases heq
      | enqueues =>
          exact ⟨Pool.forall_set hs.calls (.inl rfl), hs.tasks⟩
  | worker w outcome => exact steady_works hs (works_of_work h)
  | governor a =>
      obtain ⟨-, h⟩ := Option.ite_none_right_eq_some.mp h
      obtain ⟨gov, -, rfl⟩ := Option.map_eq_some_iff.mp h
      exact ⟨hs.calls, hs.tasks⟩

theorem steady_of_reach (h : (system cfg).Reach NoStop s) : s.Steady cfg := by
  refine h.invariant (I := CityWorkerPool.Steady cfg) (fun s h₀ => ?_) fun _ _ _ hs hC hst =>
    steady_step hs hC hst
  obtain rfl := h₀
  exact ⟨by simp [CityWorkerPool.new], rfl⟩

theorem inFlight_le_workerCount (h : (system cfg).Reach NoStop s) : s.inFlight ≤ cfg.workerCount := by
  have hlen := (steady_of_reach h).tasks
  calc s.inFlight
      = s.tasks.countP (fun stage => stage.item?.isSome) := (counted_of_reachable h.any).busy
    _ ≤ s.tasks.length := List.countP_le_length
    _ ≤ cfg.workerCount := by rw [hlen]; split <;> omega

/-! ## The accounts -/

/-- A batch is started once for an item at most. -/
theorem executions_nodup (hp : s.Placed) (hs : s.Counted) : (s.executions.map Prod.fst).Nodup := by
  rw [List.nodup_iff_count_le_one]
  intro i
  have hcount : (s.executions.map Prod.fst).count i = s.executions.countP (fun run => run.1 = i) := by
    rw [List.count, List.countP_map]
    exact List.countP_congr fun run _ => by simp
  rw [hcount, hs.batches]
  have hle : s.tasks.countP (Stage.runs i) ≤ s.copies i := by
    unfold CityWorkerPool.copies
    have hmono : s.tasks.countP (Stage.runs i) ≤ s.tasks.countP (fun stage => stage.item? = some i) := by
      refine List.countP_mono_left fun stage _ hruns => ?_
      cases stage with
      | executing j c => simpa [Stage.runs, Stage.item?] using hruns
      | atGet | acquiring j c | closing j c | exited => cases hruns
    omega
  have hcopies := hp.copies_le i
  cases hi : s.items[i]? with
  | none =>
      rw [mark_of_none hi]
      omega
  | some item =>
      rw [mark_of_some hi]
      split
      · next hended =>
          -- a worker that awaits the batch has an item whose batch is not over
          have hzero : s.tasks.countP (Stage.runs i) = 0 := by
            refine List.countP_eq_zero.mpr fun stage hstage hruns => ?_
            cases stage with
            | executing j c =>
                obtain rfl := of_decide_eq_true hruns
                have hfits := hp.fits _ hstage j item rfl hi
                simp [CityWorkItem.ended, hfits.1] at hended
            | atGet | acquiring j c | closing j c | exited => cases hruns
          omega
      · omega

/-- What an item carries when its batch is over, and that only such an item is done. -/
theorem outcome_of_placed (hp : s.Placed) {i : ℕ} {item : CityWorkItem} (hi : s.items[i]? = some item) :
    (item.status = .completed → item.result.isSome ∧ item.error = none) ∧
    (item.status = .failed → item.error.isSome ∧ item.result = none) ∧
    (item.done = true → item.status = .completed ∨ item.status = .failed) := by
  have hfinished : item.Finished → (item.status = .completed → item.result.isSome ∧ item.error = none) ∧
      (item.status = .failed → item.error.isSome ∧ item.result = none) := by
    rintro (⟨hst, hres, herr⟩ | ⟨hst, hres, herr⟩)
    · exact ⟨fun _ => ⟨hres, herr⟩, fun h => absurd (hst.symm.trans h) nofun⟩
    · exact ⟨fun h => absurd (hst.symm.trans h) nofun, fun _ => ⟨herr, hres⟩⟩
  rcases hp.cases hi with ⟨-, hst, -, -, hd⟩ | ⟨stage, -, hheld, hfits, hd⟩ | ⟨-, hfin⟩
  · exact ⟨fun h => absurd (hst.symm.trans h) nofun, fun h => absurd (hst.symm.trans h) nofun,
      fun h => absurd (hd.symm.trans h) nofun⟩
  · have hnot : ¬ item.done = true := by simp [hd]
    cases stage with
    | acquiring j c | executing j c =>
        obtain ⟨hst, -, -⟩ := hfits
        exact ⟨fun h => absurd (hst.symm.trans h) nofun, fun h => absurd (hst.symm.trans h) nofun,
          fun h => absurd h hnot⟩
    | closing j c =>
        obtain ⟨hcompleted, hfailed⟩ := hfinished (.inl hfits)
        exact ⟨hcompleted, hfailed, fun h => absurd h hnot⟩
    | atGet | exited => cases hheld
  · obtain ⟨hcompleted, hfailed⟩ := hfinished hfin
    refine ⟨hcompleted, hfailed, fun _ => ?_⟩
    rcases hfin with ⟨hst, -⟩ | ⟨hst, -⟩
    · exact .inl hst
    · exact .inr hst

/-- An item the system has not seen before is queued. -/
theorem new_item_step {a : Action} {i : ℕ} {item : CityWorkItem} (h : (system cfg).step s a = some t)
    (hi : s.items[i]? = none) (hi' : t.items[i]? = some item) : item.status = .queued := by
  have hsame : t.items.length = s.items.length → item.status = .queued := by
    intro hlen
    have hlt := (List.getElem?_eq_some_iff.mp hi').1
    exact absurd (hlen ▸ hlt) (Nat.not_lt.mpr (List.getElem?_eq_none_iff.mp hi))
  obtain ⟨hitems, -, -⟩ := start_same cfg s
  cases a with
  | start => exact hsame (by rw [← Option.some.inj h, hitems])
  | stop =>
      obtain rfl := Option.some.inj h
      refine hsame ?_
      unfold stop
      split
      · rfl
      · rfl
  | enqueue req =>
      obtain rfl := Option.some.inj h
      have hi' : ((start cfg s).items ++ [({ req } : CityWorkItem)])[i]? = some item := hi'
      rw [hitems, List.getElem?_append_right (List.getElem?_eq_none_iff.mp hi)] at hi'
      rw [List.mem_singleton.mp (List.mem_of_getElem? hi')]
  | resume k =>
      refine hsame ?_
      cases resumes_of_resume h with
      | puts | gathers | stops | enqueues => rfl
  | worker w outcome =>
      refine hsame ?_
      cases works_of_work h with
      | ends | executes => rfl
      | takes | completes | fails | closes => exact List.length_set ..
  | governor a =>
      obtain ⟨-, h⟩ := Option.ite_none_right_eq_some.mp h
      obtain ⟨gov, -, rfl⟩ := Option.map_eq_some_iff.mp h
      exact hsame rfl

/-- Nothing queued and nothing in flight: every item that was put is done. -/
theorem done_of_idle (hp : s.Placed) (hs : s.Counted) (hq : s.queue = []) (hzero : s.inFlight = 0) {i : ℕ}
    {item : CityWorkItem} (hi : s.items[i]? = some item) (hput : .enqueuing i ∉ s.calls) :
    item.done = true := by
  rcases hp.cases hi with ⟨hcall | hmem, -⟩ | ⟨stage, hstage, hheld, -⟩ | ⟨hd, -⟩
  · exact absurd hcall hput
  · rw [hq] at hmem
    cases hmem
  · have hpos : 0 < s.tasks.countP (fun stage => stage.item?.isSome) :=
      List.countP_pos_iff.mpr ⟨stage, hstage, by simp [hheld]⟩
    rw [← hs.busy, hzero] at hpos
    exact absurd hpos (Nat.lt_irrefl 0)
  · exact hd

end

/-- **The accounts of the worker pool**, in every state of a run without `stop`. -/
theorem worker_books {cfg : PoolConfig} {s : CityWorkerPool} (h : (system cfg).Reach NoStop s) :
    -- an item is executed at most once, hence by one worker
    (s.executions.map Prod.fst).Nodup ∧
    -- a status starts as queued, moves on one step at a time, and what is done does not change
    (∀ (a : Action) (t : CityWorkerPool), (system cfg).step s a = some t →
      (∀ (i : ℕ) (item : CityWorkItem), s.items[i]? = some item → ∃ item',
        t.items[i]? = some item' ∧ item'.req = item.req ∧
        (item'.status = item.status ∨ item.status.movesTo item'.status = true) ∧
        (item.done = true → item' = item)) ∧
      ∀ (i : ℕ) (item : CityWorkItem), s.items[i]? = none → t.items[i]? = some item →
        item.status = .queued) ∧
    -- a result with `completed`, an error with `failed`, and done after one of them
    (∀ (i : ℕ) (item : CityWorkItem), s.items[i]? = some item →
      (item.status = .completed → item.result.isSome ∧ item.error = none) ∧
      (item.status = .failed → item.error.isSome ∧ item.result = none) ∧
      (item.done = true → item.status = .completed ∨ item.status = .failed)) ∧
    -- the counters
    s.completed = s.items.countP (fun item => item.status = .completed) ∧
    s.failed = s.items.countP (fun item => item.status = .failed) ∧
    s.inFlight = s.items.countP CityWorkItem.inFlight ∧ s.inFlight ≤ cfg.workerCount ∧
    -- admissions
    s.owned.countP (fun c => (s.gov.calls[c]?).any (fun call => call.stage = .admitted)) ≤ s.inFlight ∧
    -- everything that was put is done when nothing is queued or in flight
    (s.queue = [] → s.inFlight = 0 → ∀ (i : ℕ) (item : CityWorkItem), s.items[i]? = some item →
      .enqueuing i ∉ s.calls → item.done = true) := by
  have hp := placed_of_reachable h.any
  have hs := counted_of_reachable h.any
  refine ⟨executions_nodup hp hs, fun a t hst => ⟨fun i item hi => status_step hp hst hi,
    fun i item hi hi' => new_item_step hst hi hi'⟩, fun i item hi => outcome_of_placed hp hi, hs.completed,
    hs.failed, hs.inFlight, inFlight_le_workerCount h, ?_, fun hq hzero i item hi hput =>
      done_of_idle hp hs hq hzero hi hput⟩
  rw [hs.busy]
  exact (owned_of_reachable h.any).admitted_le

/-- One worker and room for one entry, under the default caps. -/
def onePool : PoolConfig where
  toScaleConfig := Scale.defaultConfig
  workerCount := 1
  queueMaxsize := 1
  workers_pos := Nat.one_pos
  queue_pos := Nat.one_pos

/-- An item is enqueued, taken, admitted, executed and settled. -/
def oneBatch : List Action :=
  [.enqueue Scale.buildRequest, .resume 0, .worker 0 (.ok [])] ++
    List.replicate 7 (.governor (.proceed 0)) ++
    [.worker 0 (.ok []), .worker 0 (.ok [true]), .worker 0 (.ok [])]

/-- The accounts after that run: the one item is completed and done. -/
theorem worker_books_oneBatch :
    ∃ s, (system onePool).exec (.new onePool) oneBatch = some s ∧ s.completed = 1 ∧
      s.completed = s.items.countP (fun item => item.status = .completed) ∧ s.inFlight ≤ 1 ∧
      ∀ item, s.items[0]? = some item → item.done = true := by
  have hex : (((system onePool).exec (.new onePool) oneBatch).any fun s =>
      s.completed = 1 && s.queue = [] && s.inFlight = 0 && s.calls = [.returned]) = true := by
    decide +kernel
  obtain ⟨s, hrun, hp⟩ := System.exists_of_exec hex
  simp only [Bool.and_eq_true, decide_eq_true_eq] at hp
  obtain ⟨⟨⟨hone, hq⟩, hzero⟩, hcalls⟩ := hp
  have hmeets : (system onePool).Meets NoStop (.new onePool) oneBatch := by
    refine System.meets_of_forall (fun a ha s hstop => ?_) _
    subst hstop
    simp [oneBatch] at ha
  obtain ⟨-, -, -, hcompleted, -, -, hle, -, hdone⟩ :=
    worker_books ⟨_, rfl, System.run_of_meets hrun hmeets⟩
  exact ⟨s, hrun, hone, hcompleted, hle, fun item hi => hdone hq hzero 0 item hi (by rw [hcalls]; simp)⟩

end Persola.City.Worker
