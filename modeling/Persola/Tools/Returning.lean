import Persola.Tools.Invocations

/-!
# `Tools.Returning` — batches return

How much is left of a batch goes down whenever a coroutine goes on or a handler ends, and never up, so only handlers that
keep suspending keep a batch from its end. And there is always a way to its end: somebody can be given control, whatever
the others do. With the books of `Tools.Invocations` this is all that `run_batch` promises (`runBatch_isolated`).
-/

namespace Persola.Tools

open Runs

variable {η α ρ : Type*}

/-! ## What is left -/

/-- The steps a `run_one` has left. -/
def RunStage.left : RunStage ρ → ℕ
  | start => 3
  | waiting => 2
  | inFlight => 1
  | ended _ => 0

/-- The steps the loop has left for the call it is at and those after it. -/
def BatchRun.loopLeft (calls : List (Call α)) (s : BatchRun ρ) : ℕ :=
  match s.awaited with
  | none => 5 * (calls.length - s.position)
  | some stage => 5 * (calls.length - s.position) + stage.left - 4

/-- The steps left after the loop: `gather`, and the return. -/
def BatchRun.endLeft (calls : List (Call α)) (s : BatchRun ρ) : ℕ :=
  if s.returned.isSome then 0
  else if calls.length ≤ s.position ∧ s.awaited = none ∧ (s.active ≠ some .batch ∨ s.gathered) then 1
  else 2

/-- The steps a batch has left. -/
def BatchRun.left (calls : List (Call α)) (s : BatchRun ρ) : ℕ :=
  s.loopLeft calls + Pool.total (fun task => task.2.left) s.tasks + s.endLeft calls

/-- The coroutine in control goes on, or its handler ends. -/
def LoopEvent.isWork : LoopEvent ρ → Bool
  | .advance | .finish _ _ => true
  | _ => false

section
variable {executor : ParallelToolExecutor} {registry : ToolRegistry η} {calls : List (Call α)} {s t : Traced η α ρ}

theorem endLeft_le (run : BatchRun ρ) : run.endLeft calls ≤ 2 := by
  unfold BatchRun.endLeft
  split
  · exact Nat.zero_le 2
  · split
    · exact one_le_two
    · exact le_rfl

/-- Before the loop is over there are two steps after it. -/
theorem endLeft_eq_two {run : BatchRun ρ} (hreturned : run.returned = none)
    (h : run.position < calls.length ∨ run.awaited ≠ none ∨ run.active = some .batch ∧ run.gathered = false) :
    run.endLeft calls = 2 := by
  unfold BatchRun.endLeft
  rw [if_neg (by simp [hreturned]), if_neg]
  rintro ⟨hend, hidle, hbusy⟩
  rcases h with h | h | ⟨hactive, hgathered⟩
  · exact absurd hend (not_le.mpr h)
  · exact h hidle
  · rcases hbusy with hbusy | hbusy
    · exact hbusy hactive
    · rw [hgathered] at hbusy
      cases hbusy

theorem endLeft_mono {run run' : BatchRun ρ} (hreturned : run'.returned = run.returned)
    (h : calls.length ≤ run.position → run.awaited = none → run.active ≠ some .batch ∨ run.gathered = true →
      calls.length ≤ run'.position ∧ run'.awaited = none ∧ (run'.active ≠ some .batch ∨ run'.gathered = true)) :
    run'.endLeft calls ≤ run.endLeft calls := by
  unfold BatchRun.endLeft
  rw [hreturned]
  by_cases hdone : run.returned.isSome = true
  · rw [if_pos hdone, if_pos hdone]
  · rw [if_neg hdone, if_neg hdone]
    by_cases hcond : calls.length ≤ run.position ∧ run.awaited = none ∧ (run.active ≠ some .batch ∨ run.gathered)
    · rw [if_pos hcond, if_pos (h hcond.1 hcond.2.1 hcond.2.2)]
    · rw [if_neg hcond]
      split
      · exact one_le_two
      · exact le_rfl

theorem endLeft_pos {run : BatchRun ρ} (hreturned : run.returned = none) : 0 < run.endLeft calls := by
  unfold BatchRun.endLeft
  rw [if_neg (by simp [hreturned])]
  split
  · exact one_pos
  · exact two_pos

theorem endLeft_le_one {run : BatchRun ρ} (hend : calls.length ≤ run.position) (hidle : run.awaited = none)
    (hgathered : run.active ≠ some .batch ∨ run.gathered) : run.endLeft calls ≤ 1 := by
  unfold BatchRun.endLeft
  rw [if_pos (c := calls.length ≤ run.position ∧ _) ⟨hend, hidle, hgathered⟩]
  split
  · exact Nat.zero_le 1
  · exact le_rfl

theorem left_of_idle {run : BatchRun ρ} (h : run.awaited = none) : run.left calls =
    5 * (calls.length - run.position) + Pool.total (fun task => task.2.left) run.tasks + run.endLeft calls := by
  unfold BatchRun.left BatchRun.loopLeft
  rw [h]

theorem left_of_awaited {run : BatchRun ρ} {stage : RunStage ρ} (h : run.awaited = some stage) : run.left calls =
    5 * (calls.length - run.position) + stage.left - 4 + Pool.total (fun task => task.2.left) run.tasks +
      run.endLeft calls := by
  unfold BatchRun.left BatchRun.loopLeft
  rw [h]

/-- Control changes hands. -/
theorem left_control {run run' : BatchRun ρ} {n : ℕ} (hposition : run'.position = run.position)
    (hawaited : run'.awaited = run.awaited) (htasks : run'.tasks = run.tasks)
    (hless : run'.endLeft calls + n ≤ run.endLeft calls) : run'.left calls + n ≤ run.left calls := by
  unfold BatchRun.left BatchRun.loopLeft
  rw [hposition, hawaited, htasks]
  omega

/-- A task goes on. -/
theorem left_task {run run' : BatchRun ρ} {k i : ℕ} {stage stage' : RunStage ρ} (htask : run.tasks[k]? = some (i, stage))
    (hposition : run'.position = run.position) (hawaited : run'.awaited = run.awaited)
    (htasks : run'.tasks = run.tasks.set k (i, stage')) (hreturned : run'.returned = run.returned)
    (hactive : run'.active ≠ some .batch) (hless : stage'.left + 1 ≤ stage.left) :
    run'.left calls + 1 ≤ run.left calls := by
  have hend : run'.endLeft calls ≤ run.endLeft calls :=
    endLeft_mono hreturned fun hend hidle _ => ⟨hposition ▸ hend, hawaited.trans hidle, .inl hactive⟩
  have htotal : _ + stage.left = _ + stage'.left := Pool.total_set (w := fun task => task.2.left) htask (i, stage')
  unfold BatchRun.left BatchRun.loopLeft
  rw [hposition, hawaited, htasks]
  omega

theorem left_acquire {free goesOn : Bool} {stage stage' : RunStage ρ} (h : stage.acquire free = some (stage', goesOn))
    (hpermit : stage = .waiting → free = true) : stage'.left + 1 ≤ stage.left := by
  cases stage with
  | start =>
      cases free with
      | false =>
          obtain ⟨rfl, -⟩ := Prod.mk.inj (Option.some.inj h)
          exact le_rfl
      | true =>
          obtain ⟨rfl, -⟩ := Prod.mk.inj (Option.some.inj h)
          exact Nat.le_succ _
  | waiting =>
      rw [hpermit rfl] at h
      obtain ⟨rfl, -⟩ := Prod.mk.inj (Option.some.inj h)
      exact le_rfl
  | inFlight => cases h
  | ended _ => cases h

/-- A serial call stands where the loop is. -/
theorem Books.lt_of_awaited (h : Books executor registry calls s) {stage : RunStage ρ} (hstage : s.run.awaited = some stage) :
    s.run.position < calls.length := by
  obtain ⟨one, -, ⟨call, -, hcall, -⟩, -⟩ := h.awaited stage hstage
  exact lt_length hcall

/-- The awaited `run_one` goes on. -/
theorem left_await (hbooks : Books executor registry calls s) (hreturned : s.run.returned = none) {run' : BatchRun ρ}
    {stage stage' : RunStage ρ} (hstage : s.run.awaited = some stage) (hposition : run'.position = s.run.position)
    (hawaited : run'.awaited = some stage') (htasks : run'.tasks = s.run.tasks) (hless : stage'.left + 1 ≤ stage.left) :
    run'.left calls + 1 ≤ s.run.left calls := by
  have hlt := hbooks.lt_of_awaited hstage
  have hend : run'.endLeft calls ≤ 2 := endLeft_le run'
  have htwo := endLeft_eq_two hreturned (.inl hlt)
  rw [left_of_awaited hstage, left_of_awaited hawaited, hposition, htasks, htwo]
  omega

/-- **Work leaves less**, and nothing else leaves more. -/
theorem left_step {event : LoopEvent ρ} (hbooks : Books executor registry calls s)
    (hcontrol : Control executor calls s.run) (hstep : s.step executor registry calls event = some t) :
    t.run.left calls + (if event.isWork then 1 else 0) ≤ s.run.left calls := by
  have hend : t.run.endLeft calls ≤ 2 := endLeft_le t.run
  cases Traced.move hstep with
  | unknown hactive hidle hcall hget =>
      have hlt := lt_length hcall
      rw [left_of_idle hidle, endLeft_eq_two (hcontrol.running hactive) (.inl hlt)]
      refine (Nat.add_le_add_right (left_of_idle ?_).le _).trans ?_
      · exact hidle
      · simp only [LoopEvent.isWork, if_true] at hend ⊢
        omega
  | create hactive hidle hcall hget hparallel =>
      have hlt := lt_length hcall
      rw [left_of_idle hidle, endLeft_eq_two (hcontrol.running hactive) (.inl hlt)]
      refine (Nat.add_le_add_right (left_of_idle ?_).le _).trans ?_
      · exact hidle
      · simp only [Pool.total_append, Pool.total_cons, Pool.total_nil, RunStage.left, LoopEvent.isWork, if_true] at hend ⊢
        omega
  | await hactive hidle hcall hget hserial =>
      have hlt := lt_length hcall
      rw [left_of_idle hidle, endLeft_eq_two (hcontrol.running hactive) (.inl hlt)]
      refine (Nat.add_le_add_right (@left_of_awaited _ _ calls _ .start rfl).le _).trans ?_
      simp only [RunStage.left, LoopEvent.isWork, if_true] at hend ⊢
      omega
  | gather hactive hidle hend' hbusy =>
      refine left_control rfl rfl rfl ?_
      rw [endLeft_eq_two (hcontrol.running hactive) (.inr (.inr ⟨hactive, hbusy⟩))]
      refine Nat.succ_le_succ (endLeft_le_one (List.getElem?_eq_none_iff.mp hend') hidle (.inl fun h => ?_))
      cases h
  | done hactive hidle hend' hgathered => exact left_control rfl rfl rfl (endLeft_pos (hcontrol.running hactive))
  | wait hactive hstage hacquire hfree =>
      have hpermit (hwaiting : _ = RunStage.waiting) : false = true :=
        hfree.symm.trans (hcontrol.permit .batch hactive (hwaiting ▸ hstage))
      exact left_await hbooks (hcontrol.running hactive) hstage rfl rfl rfl (left_acquire hacquire hpermit)
  | invoke hactive hstage hacquire hfree =>
      exact left_await hbooks (hcontrol.running hactive) hstage rfl rfl rfl (left_acquire hacquire fun _ => rfl)
  | @waitTask k i stage hactive htask hacquire hfree =>
      have hpermit (hwaiting : stage = .waiting) : false = true := by
        refine hfree.symm.trans (hcontrol.permit (.task k) hactive ?_)
        rw [BatchRun.stage, htask, Option.map_some, hwaiting]
      exact left_task htask rfl rfl rfl rfl (fun h => by cases h) (left_acquire hacquire hpermit)
  | @invokeTask k i stage hactive htask hacquire hfree =>
      refine left_task htask rfl rfl rfl rfl (fun h => ?_) (left_acquire hacquire fun _ => rfl)
      cases hactive.symm.trans h
  | finish hactive hstage hcall =>
      have hlt := lt_length hcall
      rw [left_of_awaited hstage, endLeft_eq_two (hcontrol.running hactive) (.inl hlt)]
      refine (Nat.add_le_add_right (left_of_idle ?_).le _).trans ?_
      · rfl
      · simp only [RunStage.left, LoopEvent.isWork, if_true] at hend ⊢
        omega
  | finishTask hactive htask hcall => exact left_task htask rfl rfl rfl rfl (fun h => by cases h) le_rfl
  | suspend =>
      refine left_control rfl rfl rfl (endLeft_mono rfl fun hend hidle _ => ⟨hend, hidle, .inl fun h => ?_⟩)
      cases h
  | @resume actor hactive hreturned hcan =>
      refine left_control rfl rfl rfl (endLeft_mono rfl fun hend hidle _ => ⟨hend, hidle, ?_⟩)
      cases actor with
      | task k => exact .inl fun h => by cases h
      | batch =>
          have hstage : s.run.stage .batch = none := hidle
          unfold BatchRun.canResume at hcan
          rw [hstage] at hcan
          exact .inr (of_decide_eq_true hcan).2
  | others hactive => exact le_rfl

/-! ## A way to the end -/

/-- What holds in every state of a batch. -/
structure Kept (executor : ParallelToolExecutor) (registry : ToolRegistry η) (calls : List (Call α))
    (s : Traced η α ρ) : Prop where
  base : s.run.Inv executor registry calls
  books : Books executor registry calls s
  control : Control executor calls s.run

theorem Kept.step {event : LoopEvent ρ} (h : Kept executor registry calls s)
    (hstep : s.step executor registry calls event = some t) :
    Kept executor registry calls t ∧ t.run.left calls + (if event.isWork then 1 else 0) ≤ s.run.left calls := by
  obtain ⟨run, hrun, rfl⟩ := Option.map_eq_some_iff.mp hstep
  exact ⟨⟨step_inv h.base hrun, h.books.step hstep, h.control.step hstep⟩, left_step h.books h.control hstep⟩

theorem kept_of_reachable (h : (tracedBatch ρ executor registry calls).Reachable s) : Kept executor registry calls s := by
  refine h.invariant (fun s hs => ?_) fun s event t hI _ ht => (hI.step ht).1
  have hreach := System.Reach.init (C := always) hs
  refine ⟨?_, books_of_reachable hreach, control_of_reachable hreach⟩
  obtain ⟨others, hothers, rfl⟩ := hs
  exact reachable_inv (System.Reach.init ⟨others, hothers, rfl⟩)

theorem exec_left (hs : Kept executor registry calls s) {events : List (LoopEvent ρ)}
    (h : (tracedBatch ρ executor registry calls).exec s events = some t) :
    Kept executor registry calls t ∧ t.run.left calls + events.countP LoopEvent.isWork ≤ s.run.left calls :=
  System.exec_countP_le (fun s => s.run.left calls) LoopEvent.isWork (fun _ _ _ hs => hs.step) hs h

/-- There is never more left than at the start. -/
theorem left_le (hs : (tracedBatch ρ executor registry calls).Reachable s) : s.run.left calls ≤ 5 * calls.length + 2 := by
  obtain ⟨s₀, hinit, hrun⟩ := hs
  have hkept := kept_of_reachable (System.Reach.init (C := always) hinit)
  have hle := hrun.rel (I := Kept executor registry calls) (R := fun s t => t.run.left calls ≤ s.run.left calls)
    (fun _ => le_rfl) (fun _ _ _ h h' => h'.trans h)
    (fun s event t hs _ ht => ⟨(hs.step ht).1, Nat.le_of_add_right_le (hs.step ht).2⟩) hkept
  refine hle.trans ?_
  obtain ⟨others, -, rfl⟩ := hinit
  exact Nat.add_le_add_left (endLeft_le _) _

/-- A call that has a `run_one` has a tool. -/
theorem RunsCall.not_unknown {i : ℕ} {p : Bool} {one : RunOne η α} (h : RunsCall registry calls i p one) :
    ¬ ∀ call ∈ calls, registry.get call.name = none := by
  obtain ⟨call, spec, hcall, hget, -⟩ := h
  intro hall
  rw [hall call (List.mem_of_getElem? hcall)] at hget
  cases hget

theorem exists_of_run {event : LoopEvent ρ} {run : BatchRun ρ} (hrun : s.run.step executor registry calls event = some run)
    (hwork : event.isWork = true) :
    ∃ event t, s.step executor registry calls event = some t ∧ event.isWork = true :=
  ⟨event, _, congrArg _ hrun, hwork⟩

/-- **Who is in control can work.** -/
theorem exists_work (h : Kept executor registry calls s) {actor : Actor} (hactive : s.run.active = some actor) :
    ∃ event t, s.step executor registry calls event = some t ∧ event.isWork = true := by
  cases actor with
  | batch =>
      cases hstage : s.run.awaited with
      | none =>
          have hrun : s.run.step executor registry calls .advance = some (s.run.walk registry calls) := by
            simp only [BatchRun.step, BatchRun.advance, hactive, hstage]
          exact exists_of_run hrun rfl
      | some stage =>
          cases stage with
          | start | waiting =>
              have hrun : ∃ run, s.run.step executor registry calls .advance = some run := by
                simp only [BatchRun.step, BatchRun.advance, hactive, hstage]
                exact ⟨_, rfl⟩
              exact exists_of_run hrun.choose_spec rfl
          | inFlight =>
              -- its handler times out
              obtain ⟨one, -, ⟨call, -, hcall, -⟩, -⟩ := h.books.awaited _ hstage
              have hrun : ∃ run, s.run.step executor registry calls (.finish .timeout 0) = some run := by
                simp only [BatchRun.step, BatchRun.finish, hactive, hstage, hcall]
                exact ⟨_, rfl⟩
              exact exists_of_run hrun.choose_spec rfl
          | ended r => exact absurd hstage (h.control.awaited r)
  | task k =>
      obtain ⟨i, stage, htask, hrunning⟩ := h.control.task k hactive
      cases stage with
      | start | waiting =>
          have hrun : ∃ run, s.run.step executor registry calls .advance = some run := by
            simp only [BatchRun.step, BatchRun.advance, hactive, htask]
            exact ⟨_, rfl⟩
          exact exists_of_run hrun.choose_spec rfl
      | inFlight =>
          obtain ⟨-, one, -, ⟨call, -, hcall, -⟩, -⟩ := h.books.tasks k i _ htask
          have hrun : ∃ run, s.run.step executor registry calls (.finish .timeout 0) = some run := by
            simp only [BatchRun.step, BatchRun.finish, hactive, htask, hcall]
            exact ⟨_, rfl⟩
          exact exists_of_run hrun.choose_spec rfl
      | ended r => exact absurd rfl (hrunning r)

/-- With a permit, and no other batch, a coroutine that has not ended can go on when no handler is in flight. -/
theorem canResume_of_idle {actor : Actor} {stage : RunStage ρ} (hmax : 0 < executor.maxConcurrency)
    (hidle : ∀ actor, s.run.stage actor ≠ some .inFlight) (hstage : s.run.stage actor = some stage)
    (hrunning : ∀ r, stage ≠ .ended r) : BatchRun.canResume executor { s.run with others := 0 } actor = true := by
  have hsame : BatchRun.stage { s.run with others := 0 } actor = some stage := hstage
  have hfree : BatchRun.free executor { s.run with others := 0 } = true := by
    apply decide_eq_true
    rw [inFlight_length, if_neg, List.countP_eq_zero.mpr]
    · exact hmax
    · intro task htask hflight
      obtain ⟨k, hk⟩ := List.mem_iff_getElem?.mp htask
      apply hidle (.task k)
      have hk : s.run.tasks[k]? = some task := hk
      rw [BatchRun.stage, hk]
      obtain ⟨i, stage⟩ := task
      cases stage with
      | inFlight => rfl
      | start | waiting | ended => cases hflight
    · intro hflight
      apply hidle .batch
      have hflight : s.run.awaited.any (·.isInFlight) = true := hflight
      show s.run.awaited = _
      cases hawaited : s.run.awaited with
      | none =>
          rw [hawaited] at hflight
          cases hflight
      | some stage =>
          rw [hawaited] at hflight
          cases stage with
          | inFlight => rfl
          | start | waiting | ended => cases hflight
  unfold BatchRun.canResume
  rw [hsame, hfree]
  cases stage with
  | start | waiting | inFlight => rfl
  | ended r => exact absurd rfl (hrunning r)

/-- **Somebody can be given control.** -/
theorem exists_resume (h : Kept executor registry calls s)
    (hroom : 0 < executor.maxConcurrency ∨ ∀ call ∈ calls, registry.get call.name = none)
    (hactive : s.run.active = none) (hreturned : s.run.returned = none) :
    ∃ actor t, (tracedBatch ρ executor registry calls).exec s [.others 0, .resume actor] = some t ∧
      t.run.active = some actor := by
  have hcan : ∃ actor, BatchRun.canResume executor { s.run with others := 0 } actor = true := by
    by_cases hbusy : ∃ actor, s.run.stage actor = some .inFlight
    · obtain ⟨actor, hstage⟩ := hbusy
      have hsame : BatchRun.stage { s.run with others := 0 } actor = some .inFlight := hstage
      refine ⟨actor, ?_⟩
      unfold BatchRun.canResume
      rw [hsame]
      rfl
    have hidle : ∀ actor, s.run.stage actor ≠ some .inFlight := not_exists.mp hbusy
    cases hstage : s.run.awaited with
    | some stage =>
        obtain ⟨one, -, hone, -⟩ := h.books.awaited stage hstage
        have hmax := hroom.resolve_right hone.not_unknown
        exact ⟨.batch, canResume_of_idle hmax hidle hstage fun r hr => h.control.awaited r (hr ▸ hstage)⟩
    | none =>
        cases hgathered : s.run.gathered with
        | true =>
            have hsame : BatchRun.stage { s.run with others := 0 } .batch = none := hstage
            refine ⟨.batch, ?_⟩
            unfold BatchRun.canResume
            rw [hsame]
            exact decide_eq_true ⟨rfl, hgathered⟩
        | false =>
            -- a task has not ended
            obtain ⟨⟨i, stage⟩, hmem, hrunning⟩ := List.all_eq_false.mp hgathered
            obtain ⟨k, hk⟩ := List.mem_iff_getElem?.mp hmem
            obtain ⟨-, one, -, hone, -⟩ := h.books.tasks k i stage hk
            have hmax := hroom.resolve_right hone.not_unknown
            have hstage : s.run.stage (.task k) = some stage := by rw [BatchRun.stage, hk, Option.map_some]
            refine ⟨.task k, canResume_of_idle hmax hidle hstage fun r hr => hrunning ?_⟩
            rw [hr]
  obtain ⟨actor, hcan⟩ := hcan
  have hpermits : s.run.inFlight.length + 0 ≤ executor.maxConcurrency := Nat.le_trans (Nat.le_add_right _ _) h.base.permits
  have hothers : s.run.step executor registry calls (.others 0) = some { s.run with others := 0 } := if_pos ⟨hactive, hpermits⟩
  have hresume : BatchRun.step executor registry calls { s.run with others := 0 } (.resume actor) =
      some { s.run with others := 0, active := some actor } :=
    if_pos ⟨hactive, Option.isNone_iff_eq_none.mpr hreturned, hcan⟩
  have hfirst : s.step executor registry calls (.others 0) = some { s with run := { s.run with others := 0 } } :=
    congrArg _ hothers
  have hsecond : Traced.step executor registry calls { s with run := { s.run with others := 0 } } (.resume actor) =
      some { s with run := { s.run with others := 0, active := some actor } } := congrArg _ hresume
  exact ⟨actor, _, (System.exec_cons hfirst).trans (System.exec_cons hsecond), rfl⟩

/-- **A batch can always come to its end.** -/
theorem exists_returned (hroom : 0 < executor.maxConcurrency ∨ ∀ call ∈ calls, registry.get call.name = none)
    (h : Kept executor registry calls s) :
    ∃ events t, (tracedBatch ρ executor registry calls).exec s events = some t ∧ t.run.returned.isSome = true := by
  refine System.exists_exec (I := Kept executor registry calls) (P := fun t => t.run.returned.isSome = true)
    (fun s => s.run.left calls) (fun s hs hreturned => ?_) h
  have hwork {s : Traced η α ρ} (hs : Kept executor registry calls s) {actor : Actor}
      (hactive : s.run.active = some actor) : ∃ event t, s.step executor registry calls event = some t ∧
        Kept executor registry calls t ∧ t.run.left calls < s.run.left calls := by
    obtain ⟨event, t, hstep, hwork⟩ := exists_work hs hactive
    obtain ⟨ht, hless⟩ := hs.step hstep
    rw [hwork] at hless
    exact ⟨event, t, hstep, ht, hless⟩
  cases hactive : s.run.active with
  | some actor =>
      obtain ⟨event, t, hstep, ht, hless⟩ := hwork hs hactive
      exact ⟨[event], t, System.exec_cons hstep, ht, hless⟩
  | none =>
      obtain ⟨actor, u, hrun, hu⟩ := exists_resume hs hroom hactive (Option.not_isSome_iff_eq_none.mp hreturned)
      obtain ⟨hkept, hleft⟩ := exec_left hs hrun
      obtain ⟨event, t, hstep, ht, hless⟩ := hwork hkept hu
      refine ⟨[.others 0, .resume actor] ++ [event], t, ?_, ht, by omega⟩
      rw [System.exec_append, hrun]
      exact System.exec_cons hstep

/-- **Each call of a batch gets its own result.** Whatever the order in which handlers finish, raise or time out: a batch
returns one entry for each call, in the order of the calls, that comes from the handler of that call alone; no handler is
ever invoked but for its own call, once, with its own arguments; a batch can always come to its end, and after a bounded
number of steps of its coroutines and ends of handlers it has. -/
theorem runBatch_isolated (executor : ParallelToolExecutor) (registry : ToolRegistry η) (calls : List (Call α))
    (s : Traced η α ρ) (hs : (tracedBatch ρ executor registry calls).Reachable s) :
    (∀ results, s.run.returned = some results → results.length = calls.length ∧
      ∀ i call, calls[i]? = some call →
        ∃ entry, results[i]? = some entry ∧ Settled executor registry call (s.lanes i) entry) ∧
    (∀ i, (s.lanes i).invoked = [] ∨ ∃ call spec, calls[i]? = some call ∧ registry.get call.name = some spec ∧
      (s.lanes i).invoked = [⟨call.name, spec.handler, call.args⟩]) ∧
    ((0 < executor.maxConcurrency ∨ ∀ call ∈ calls, registry.get call.name = none) →
      ∃ events t, (tracedBatch ρ executor registry calls).exec s events = some t ∧ t.run.returned.isSome = true) ∧
    ∀ events t, (tracedBatch ρ executor registry calls).exec s events = some t →
      events.countP LoopEvent.isWork ≤ 5 * calls.length + 2 := by
  have hkept := kept_of_reachable hs
  refine ⟨fun results => settled_of_returned hkept.books hkept.control, hkept.books.invoked, fun hroom =>
    exists_returned hroom hkept, fun events t hrun => ?_⟩
  have hleft := (exec_left hkept hrun).2
  have hmost := left_le hs
  omega

end

/-- A tool that is not there, a write, and two that may run beside others. -/
def mixedBatch : List (Call ℕ) := [⟨"weather", 0⟩, ⟨"workspace_write", 1⟩, ⟨"workspace_read", 2⟩, ⟨"workspace_list", 3⟩]

/-- The write is done, the read raises after the list has timed out: each in its own entry. -/
theorem runBatch_isolated_mixed : ∃ (s : Traced Unit ℕ Unit) (results : List (ToolCallResult Unit)),
    s.run.returned = some results ∧ results.map (fun entry => (entry.name, entry.success, entry.error)) =
      [("weather", false, some "unknown tool: weather"), ("workspace_write", true, none),
        ("workspace_read", false, some "no such file"), ("workspace_list", false, some "timeout after 30.0s")] ∧
    ∀ i call, mixedBatch[i]? = some call →
      ∃ entry, results[i]? = some entry ∧ Settled {} commons call (s.lanes i) entry := by
  have hex : (((tracedBatch Unit {} commons mixedBatch).exec { run := { BatchRun.start mixedBatch with others := 0 } }
      [.advance, .advance, .advance, .finish (.result [("path", ())]) 5, .advance, .advance, .advance, .resume (.task 0),
        .advance, .suspend, .resume (.task 1), .advance, .finish .timeout 30000, .resume (.task 0),
        .finish (.raised "no such file") 30001, .resume .batch, .advance]).any fun s =>
          s.run.returned.any fun results => results.map (fun entry => (entry.name, entry.success, entry.error)) =
            [("weather", false, some "unknown tool: weather"), ("workspace_write", true, none),
              ("workspace_read", false, some "no such file"),
              ("workspace_list", false, some "timeout after 30.0s")]) = true := by
    decide +kernel
  obtain ⟨s, hrun, hs⟩ := System.exists_of_exec hex
  have hreach := System.reachable_of_exec (M := tracedBatch Unit {} commons mixedBatch) ⟨0, Nat.zero_le _, rfl⟩ hrun
  cases hreturned : s.run.returned with
  | none =>
      rw [hreturned] at hs
      cases hs
  | some results =>
      rw [hreturned] at hs
      exact ⟨s, results, hreturned, of_decide_eq_true hs,
        ((runBatch_isolated {} commons mixedBatch s hreach).1 results hreturned).2⟩

end Persola.Tools
