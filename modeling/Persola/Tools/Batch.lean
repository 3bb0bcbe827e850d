import Persola.Tools.Registry
import Persola.Lib.Runs
import Persola.Lib.Pool

/-!
# `Tools.Batch` — a batch of tool calls on the event loop

One coroutine has control at a time and keeps it up to its next suspension. The coroutine of the batch walks over
the calls, awaits the serial ones where they stand and makes tasks of the others, which start when it first gives
up control. How often a handler suspends, how it ends and which coroutine goes on next are the labels of the steps.
-/

namespace Persola.Tools

open Runs

variable {η α ρ : Type*}

/-- `ToolCallResult`. -/
structure ToolCallResult (ρ : Type*) where
  name : String
  success : Bool
  result : List (String × ρ) := []
  error : Option String := none
  durationMs : ℕ := 0

/-- `ParallelToolExecutor`; the timeout is kept as it is printed. -/
structure ParallelToolExecutor where
  maxConcurrency : ℕ := 8
  defaultTimeoutS : String := "30.0"

/-- How a handler ends under `asyncio.wait_for`. -/
inductive HandlerEnd (ρ : Type*)
  | result (result : List (String × ρ))
  | timeout
  | raised (error : String)

/-- What `run_one` makes of the end of a handler. -/
def ParallelToolExecutor.resultOf (executor : ParallelToolExecutor) (name : String) (durationMs : ℕ) :
    HandlerEnd ρ → ToolCallResult ρ
  | .result result => { name, success := true, result, durationMs }
  | .timeout => { name, success := false, error := s!"timeout after {executor.defaultTimeoutS}s", durationMs }
  | .raised error => { name, success := false, error, durationMs }

/-- Where a `run_one` stands. -/
inductive RunStage (ρ : Type*)
  | start
  /-- It waits for the semaphore. -/
  | waiting
  | inFlight
  | ended (result : ToolCallResult ρ)

namespace RunStage

def isInFlight : RunStage ρ → Bool
  | inFlight => true
  | _ => false

/-- `async with self._semaphore`, up to the handler: the new stage, and whether control is kept. -/
def acquire (free : Bool) : RunStage ρ → Option (RunStage ρ × Bool)
  | start | waiting => some (if free then (inFlight, true) else (waiting, false))
  | inFlight | ended _ => none

/-- The event loop may give control to it. -/
def canResume (free : Bool) : RunStage ρ → Bool
  | start | inFlight => true
  | waiting => free
  | ended _ => false

end RunStage

/-- The coroutines: the one of the batch and the tasks it creates. -/
inductive Actor
  | batch
  | task (k : ℕ)
deriving DecidableEq

/-- A batch under way. -/
structure BatchRun (ρ : Type*) where
  /-- The call the loop is at. -/
  position : ℕ := 0
  /-- The `run_one` of that call, if it is awaited. -/
  awaited : Option (RunStage ρ) := none
  /-- `parallel_idx` and `parallel_tasks`. -/
  tasks : List (ℕ × RunStage ρ) := []
  results : List (Option (ToolCallResult ρ))
  active : Option Actor := some .batch
  /-- The permits other batches of the executor hold. -/
  others : ℕ := 0
  returned : Option (List (ToolCallResult ρ)) := none

/-- What happens next. -/
inductive LoopEvent (ρ : Type*)
  /-- The coroutine in control goes on. -/
  | advance
  /-- The handler in control suspends. -/
  | suspend
  /-- The handler in control ends. -/
  | finish (result : HandlerEnd ρ) (durationMs : ℕ)
  /-- The event loop gives control to a coroutine. In which order waiters are served is left open. -/
  | resume (actor : Actor)
  /-- Other batches take or release permits. -/
  | others (held : ℕ)

namespace BatchRun

def start (calls : List (Call α)) : BatchRun ρ := { results := calls.map fun _ => none }

/-- The calls whose handlers are in flight. -/
def inFlight (s : BatchRun ρ) : List ℕ :=
  (if s.awaited.any (·.isInFlight) then [s.position] else []) ++ (s.tasks.filter (·.2.isInFlight)).map Prod.fst

/-- The semaphore has a permit left. -/
def free (executor : ParallelToolExecutor) (s : BatchRun ρ) : Bool :=
  s.inFlight.length + s.others < executor.maxConcurrency

/-- The `run_one` of a coroutine. -/
def stage (s : BatchRun ρ) : Actor → Option (RunStage ρ)
  | .batch => s.awaited
  | .task k => (s.tasks[k]?).map Prod.snd

/-- The tasks have all ended. -/
def gathered (s : BatchRun ρ) : Bool := s.tasks.all fun task => match task.2 with | .ended _ => true | _ => false

/-- The results in the order of the calls. -/
def collect (s : BatchRun ρ) : List (ToolCallResult ρ) :=
  let results := s.tasks.foldl (fun results task =>
    match task.2 with
    | .ended result => results.set task.1 (some result)
    | _ => results) s.results
  results.map (·.getD { name := "unknown", success := false, error := "missing" })

section
variable (executor : ParallelToolExecutor) (registry : ToolRegistry η) (calls : List (Call α))

/-- The loop of `run_batch`, at a call it does not await yet. -/
def walk (s : BatchRun ρ) : BatchRun ρ :=
  match calls[s.position]? with
  | none =>
      if s.gathered then { s with returned := some s.collect, active := none }
      else { s with active := none }
  | some call =>
      match registry.get call.name with
      | none =>
          let result := { name := call.name, success := false, error := s!"unknown tool: {call.name}" }
          { s with results := s.results.set s.position (some result), position := s.position + 1 }
      | some spec =>
          if spec.parallelSafe then
            { s with tasks := s.tasks ++ [(s.position, .start)], position := s.position + 1 }
          else { s with awaited := some .start }

/-- The coroutine in control goes on up to its handler, or gives up control. -/
def advance (s : BatchRun ρ) : Option (BatchRun ρ) :=
  match s.active with
  | some .batch =>
      match s.awaited with
      | none => some (s.walk registry calls)
      | some stage => (stage.acquire (s.free executor)).map fun (stage, goesOn) =>
          { s with awaited := some stage, active := if goesOn then s.active else none }
  | some (.task k) =>
      match s.tasks[k]? with
      | some (i, stage) => (stage.acquire (s.free executor)).map fun (stage, goesOn) =>
          { s with tasks := s.tasks.set k (i, stage), active := if goesOn then s.active else none }
      | none => none
  | none => none

/-- The handler in control ends. -/
def finish (result : HandlerEnd ρ) (durationMs : ℕ) (s : BatchRun ρ) : Option (BatchRun ρ) :=
  match s.active with
  | some .batch =>
      match s.awaited, calls[s.position]? with
      | some .inFlight, some call => some { s with
          results := s.results.set s.position (some (executor.resultOf call.name durationMs result))
          awaited := none
          position := s.position + 1 }
      | _, _ => none
  | some (.task k) =>
      match s.tasks[k]? with
      | some (i, .inFlight) => (calls[i]?).map fun call => { s with
          tasks := s.tasks.set k (i, .ended (executor.resultOf call.name durationMs result))
          active := none }
      | _ => none
  | none => none

/-- The event loop may give control to a coroutine. -/
def canResume (s : BatchRun ρ) (actor : Actor) : Bool :=
  match s.stage actor with
  | some stage => stage.canResume (s.free executor)
  -- the coroutine of the batch is back from `gather`
  | none => actor = .batch ∧ s.gathered

def step (s : BatchRun ρ) : LoopEvent ρ → Option (BatchRun ρ)
  | .advance => s.advance executor registry calls
  | .suspend =>
      if (s.active.bind s.stage).any (·.isInFlight) then some { s with active := none } else none
  | .finish result durationMs => s.finish executor calls result durationMs
  | .resume actor =>
      if s.active = none ∧ s.returned.isNone ∧ s.canResume executor actor then some { s with active := some actor }
      else none
  | .others held =>
      if s.active = none ∧ s.inFlight.length + held ≤ executor.maxConcurrency then some { s with others := held }
      else none

end

end BatchRun

/-- `run_batch` on the event loop. -/
def runBatch (ρ : Type*) (executor : ParallelToolExecutor) (registry : ToolRegistry η) (calls : List (Call α)) :
    System (BatchRun ρ) (LoopEvent ρ) where
  init s := ∃ others ≤ executor.maxConcurrency, s = { BatchRun.start calls with others }
  step := BatchRun.step executor registry calls

/-- The tool of the call at an index may run beside others. -/
def ParallelAt (registry : ToolRegistry η) (calls : List (Call α)) (i : ℕ) : Prop :=
  ∃ call, calls[i]? = some call ∧ registry.Parallel call.name

/-- The tool of the call at an index may not. -/
def SerialAt (registry : ToolRegistry η) (calls : List (Call α)) (i : ℕ) : Prop :=
  ∃ call, calls[i]? = some call ∧ registry.Serial call.name

/-- While a handler of a serial tool is in flight, no other one of the batch is. -/
def BatchRun.Exclusive (registry : ToolRegistry η) (calls : List (Call α)) (s : BatchRun ρ) : Prop :=
  ∀ i ∈ s.inFlight, SerialAt registry calls i → s.inFlight = [i]

/-! ## What every step keeps -/

section
variable {executor : ParallelToolExecutor} {registry : ToolRegistry η} {calls : List (Call α)} {s t : BatchRun ρ}

/-- The handlers in flight have permits, tasks are made of calls passed, and only serial tools are awaited. -/
structure BatchRun.Inv (executor : ParallelToolExecutor) (registry : ToolRegistry η) (calls : List (Call α))
    (s : BatchRun ρ) : Prop where
  permits : s.inFlight.length + s.others ≤ executor.maxConcurrency
  tasks : ∀ task ∈ s.tasks, task.1 < s.position ∧ ParallelAt registry calls task.1
  awaited : s.awaited.isSome → SerialAt registry calls s.position

theorem inFlight_length (s : BatchRun ρ) : s.inFlight.length =
    (if s.awaited.any (·.isInFlight) then 1 else 0) + s.tasks.countP (·.2.isInFlight) := by
  unfold BatchRun.inFlight
  rw [List.length_append, List.length_map, ← List.countP_eq_length_filter]
  split
  · rfl
  · rfl

theorem acquire_spec {free goesOn : Bool} {stage stage' : RunStage ρ}
    (h : stage.acquire free = some (stage', goesOn)) :
    stage.isInFlight = false ∧ (stage'.isInFlight = true → free = true) := by
  cases stage with
  | start | waiting =>
      refine ⟨rfl, ?_⟩
      cases free with
      | true => exact fun _ => rfl
      | false =>
          obtain ⟨rfl, -⟩ := Prod.mk.inj (Option.some.inj h)
          exact id
  | inFlight => cases h
  | ended _ => cases h

theorem walk_inv (hs : s.Inv executor registry calls) (hawaited : s.awaited = none) :
    (s.walk registry calls).Inv executor registry calls := by
  obtain ⟨hpermits, htasks, -⟩ := hs
  have hnone : ¬ (s.awaited.isSome = true) := by simp [hawaited]
  rw [inFlight_length] at hpermits
  unfold BatchRun.walk
  split
  · split
    · exact ⟨by rwa [inFlight_length], htasks, fun h => absurd h hnone⟩
    · exact ⟨by rwa [inFlight_length], htasks, fun h => absurd h hnone⟩
  · next call hcall =>
      split
      · refine ⟨by rwa [inFlight_length], ?_, fun h => absurd h hnone⟩
        intro task htask
        exact ⟨Nat.lt_succ_of_lt (htasks task htask).1, (htasks task htask).2⟩
      · next spec hspec =>
          split
          · next hparallel =>
              refine ⟨?_, ?_, fun h => absurd h hnone⟩
              · rw [inFlight_length, List.countP_append]
                exact hpermits
              · intro task htask
                rcases List.mem_append.mp htask with htask | htask
                · exact ⟨Nat.lt_succ_of_lt (htasks task htask).1, (htasks task htask).2⟩
                · obtain rfl := List.mem_singleton.mp htask
                  exact ⟨Nat.lt_succ_self _, call, hcall, spec, hspec, hparallel⟩
          · next hserial =>
              refine ⟨?_, htasks, fun _ => ⟨call, hcall, spec, hspec, by simpa using hserial⟩⟩
              rw [inFlight_length]
              simpa [hawaited, RunStage.isInFlight] using hpermits

/-- A coroutine that goes in flight takes a free permit. -/
theorem advance_inv (hs : s.Inv executor registry calls) (h : s.advance executor registry calls = some t) :
    t.Inv executor registry calls := by
  have hfree : s.free executor = true → s.inFlight.length + s.others < executor.maxConcurrency := of_decide_eq_true
  unfold BatchRun.advance at h
  split at h
  · split at h
    · next hawaited =>
        cases h
        exact walk_inv hs hawaited
    · next stage hawaited =>
        obtain ⟨⟨stage', goesOn⟩, hacquire, rfl⟩ := Option.map_eq_some_iff.mp h
        obtain ⟨hbefore, hafter⟩ := acquire_spec hacquire
        refine ⟨?_, hs.tasks, fun _ => hs.awaited (by simp [hawaited])⟩
        have hpermits := hs.permits
        rw [inFlight_length, hawaited] at hpermits hfree
        rw [inFlight_length]
        simp only [Option.any_some, hbefore] at hpermits hfree ⊢
        split
        · next hin =>
            have := hfree (hafter hin)
            simp only [Bool.false_eq_true, if_false] at this
            omega
        · simpa using hpermits
  · split at h
    · next _ i stage htask =>
        obtain ⟨⟨stage', goesOn⟩, hacquire, rfl⟩ := Option.map_eq_some_iff.mp h
        obtain ⟨hbefore, hafter⟩ := acquire_spec hacquire
        refine ⟨?_, ?_, hs.awaited⟩
        · have hcount := Pool.countP_set (f := fun task => task.2.isInFlight) htask (i, stage')
          have hpermits := hs.permits
          rw [inFlight_length] at hpermits hfree ⊢
          simp only [hbefore] at hcount
          dsimp only
          cases hin : stage'.isInFlight with
          | true =>
              have := hfree (hafter hin)
              simp only [hin, Bool.false_eq_true, if_false, if_true] at hcount
              omega
          | false =>
              simp only [hin, Bool.false_eq_true, if_false, Nat.add_zero] at hcount
              omega
        · have hold := hs.tasks _ (List.mem_of_getElem? htask)
          exact Pool.forall_set hs.tasks hold
    · cases h
  · cases h

/-- A handler that ends gives its permit back. -/
theorem finish_inv {result : HandlerEnd ρ} {durationMs : ℕ} (hs : s.Inv executor registry calls)
    (h : s.finish executor calls result durationMs = some t) : t.Inv executor registry calls := by
  have hpermits := hs.permits
  rw [inFlight_length] at hpermits
  unfold BatchRun.finish at h
  split at h
  · split at h
    · cases h
      refine ⟨?_, ?_, fun h => nomatch h⟩
      · rw [inFlight_length]
        exact Nat.le_trans (by simp) hpermits
      · intro task htask
        exact ⟨Nat.lt_succ_of_lt (hs.tasks task htask).1, (hs.tasks task htask).2⟩
    · cases h
  · split at h
    · next _ i htask =>
        obtain ⟨call, -, rfl⟩ := Option.map_eq_some_iff.mp h
        refine ⟨?_, ?_, hs.awaited⟩
        · have hcount : _ + 1 = _ + 0 := Pool.countP_set (f := fun task => task.2.isInFlight) htask
            (i, .ended (executor.resultOf call.name durationMs result))
          rw [inFlight_length]
          dsimp only
          omega
        · have hold := hs.tasks _ (List.mem_of_getElem? htask)
          exact Pool.forall_set hs.tasks hold
    · cases h
  · cases h

theorem step_inv {l : LoopEvent ρ} (hs : s.Inv executor registry calls)
    (h : s.step executor registry calls l = some t) : t.Inv executor registry calls := by
  cases l with
  | advance => exact advance_inv hs h
  | finish result durationMs => exact finish_inv hs h
  | suspend =>
      simp only [BatchRun.step] at h
      split at h <;> cases h
      exact ⟨hs.permits, hs.tasks, hs.awaited⟩
  | resume actor =>
      simp only [BatchRun.step] at h
      split at h <;> cases h
      exact ⟨hs.permits, hs.tasks, hs.awaited⟩
  | others held =>
      simp only [BatchRun.step] at h
      split at h
      · next hheld =>
          cases h
          exact ⟨hheld.2, hs.tasks, hs.awaited⟩
      · cases h

theorem reachable_inv (h : (runBatch ρ executor registry calls).Reachable s) : s.Inv executor registry calls := by
  refine System.Reach.invariant (I := BatchRun.Inv executor registry calls) ?_ ?_ h
  rotate_left
  · intro s l t hs _ hst
    exact step_inv hs hst
  rintro _ ⟨others, hothers, rfl⟩
  exact ⟨by simpa [BatchRun.inFlight, BatchRun.start] using hothers, fun _ h => (nomatch h), fun h => nomatch h⟩

/-! ## When serial tools are alone -/

/-- An invariant state is exclusive if there is one permit or no task is made before a serial call. -/
theorem exclusive_of_inv (hcond : executor.maxConcurrency ≤ 1 ∨
      ∀ i j, i < j → ParallelAt registry calls i → ¬ SerialAt registry calls j)
    (hs : s.Inv executor registry calls) : s.Exclusive registry calls := by
  intro i hi hserial
  rcases hcond with hone | horder
  · have hlength : s.inFlight.length = 1 := by
      have hpos := List.length_pos_of_mem hi
      have hpermits := hs.permits
      omega
    obtain ⟨j, hj⟩ := List.length_eq_one_iff.mp hlength
    rw [hj] at hi ⊢
    rw [List.mem_singleton.mp hi]
  · have hnotask : ∀ task ∈ s.tasks, task.1 ≠ i := by
      rintro task htask rfl
      obtain ⟨call, hcall, hparallel⟩ := (hs.tasks task htask).2
      obtain ⟨call', hcall', hserial⟩ := hserial
      obtain rfl : call = call' := Option.some.inj (hcall.symm.trans hcall')
      exact ToolRegistry.not_serial_of_parallel hparallel hserial
    rcases List.mem_append.mp hi with hi | hi
    · have hawaited : s.awaited.any (·.isInFlight) = true := by
        by_contra hno
        rw [if_neg hno] at hi
        cases hi
      rw [if_pos hawaited] at hi
      obtain rfl := List.mem_singleton.mp hi
      have hnone : s.tasks = [] := by
        apply List.eq_nil_iff_forall_not_mem.mpr
        intro task htask
        obtain ⟨hlt, hparallel⟩ := hs.tasks task htask
        exact horder task.1 s.position hlt hparallel hserial
      rw [BatchRun.inFlight, if_pos hawaited, hnone]
      rfl
    · obtain ⟨task, htask, rfl⟩ := List.mem_map.mp hi
      exact absurd rfl (hnotask task (List.mem_of_mem_filter htask))

/-- The loop has come to a call with all its tasks still to start. -/
structure BatchRun.At (registry : ToolRegistry η) (calls : List (Call α)) (p : ℕ) (s : BatchRun ρ) : Prop where
  position : s.position = p
  awaited : s.awaited = none
  active : s.active = some .batch
  others : s.others = 0
  returned : s.returned = none
  start : ∀ task ∈ s.tasks, task.2 = RunStage.start
  passed : ∀ i < p, ParallelAt registry calls i → ∃ k : ℕ, s.tasks[k]? = some (i, RunStage.start)

namespace BatchRun.At

variable {p : ℕ}

/-- Only the call the loop is at can be in flight. -/
theorem inFlight_length {awaited : Option (RunStage ρ)} {active : Option Actor} (hs : s.At registry calls p) :
    (BatchRun.inFlight { s with awaited, active }).length = if awaited.any (·.isInFlight) then 1 else 0 := by
  have hcount : s.tasks.countP (·.2.isInFlight) = 0 := by
    apply List.countP_eq_zero.mpr
    intro task htask
    rw [hs.start task htask]
    exact Bool.false_ne_true
  rw [Tools.inFlight_length]
  dsimp only
  rw [hcount, Nat.add_zero]

/-- The loop goes past a call that leaves no task behind. -/
theorem pass (hs : s.At registry calls p) (results : List (Option (ToolCallResult ρ)))
    (hno : ¬ ParallelAt registry calls p) :
    BatchRun.At registry calls (p + 1) { s with results, awaited := none, position := p + 1 } where
  position := rfl
  awaited := rfl
  active := hs.active
  others := hs.others
  returned := hs.returned
  start := hs.start
  passed := by
    intro i hi hparallel
    rcases Nat.lt_succ_iff_lt_or_eq.mp hi with hi | rfl
    · exact hs.passed i hi hparallel
    · exact absurd hparallel hno

/-- A serial call goes in flight as soon as the loop comes to it. -/
theorem await (hmax : 0 < executor.maxConcurrency) (hs : s.At registry calls p)
    (hserial : SerialAt registry calls p) :
    (runBatch ρ executor registry calls).exec s [.advance, .advance] =
      some { s with awaited := some .inFlight } := by
  obtain ⟨call, hcall, spec, hspec, hserial⟩ := hserial
  have hwalk : s.step executor registry calls .advance = some { s with awaited := some .start } := by
    simp [BatchRun.step, BatchRun.advance, hs.active, hs.awaited, BatchRun.walk, hs.position, hcall, hspec, hserial]
  have hfree : BatchRun.free executor { s with awaited := some .start } = true := by
    apply decide_eq_true
    rw [hs.inFlight_length]
    simpa [hs.others, RunStage.isInFlight] using hmax
  have hacquire : BatchRun.step executor registry calls { s with awaited := some .start } .advance =
      some { s with awaited := some .inFlight } := by
    have hactive := hs.active
    obtain ⟨_, _, _, _, _, _, _⟩ := s
    subst hactive
    simp [BatchRun.step, BatchRun.advance, RunStage.acquire, hfree]
  show (s.step executor registry calls .advance).bind _ = _
  rw [hwalk]
  show (BatchRun.step executor registry calls { s with awaited := some .start } .advance).bind _ = _
  rw [hacquire]
  rfl

/-- The loop gets past every call without giving up control. -/
theorem next (hmax : 0 < executor.maxConcurrency) (hp : p < calls.length) (hs : s.At registry calls p) :
    ∃ t events, (runBatch ρ executor registry calls).exec s events = some t ∧ t.At registry calls (p + 1) := by
  have hcall : calls[p]? = some calls[p] := List.getElem?_eq_getElem hp
  have hstep : s.step executor registry calls .advance = some (s.walk registry calls) := by
    simp only [BatchRun.step, BatchRun.advance, hs.active, hs.awaited]
  unfold BatchRun.walk at hstep
  rw [hs.position, hcall] at hstep
  dsimp only at hstep
  cases hspec : registry.get calls[p].name with
  | none =>
      -- an unknown tool
      have hno : ¬ ParallelAt registry calls p := by
        rintro ⟨call, hcall', spec, hspec', -⟩
        obtain rfl := Option.some.inj (hcall.symm.trans hcall')
        rw [hspec] at hspec'
        cases hspec'
      rw [hspec, hs.awaited] at hstep
      exact ⟨_, [.advance], (System.exec_cons hstep).trans rfl, hs.pass _ hno⟩
  | some spec =>
      rw [hspec] at hstep
      dsimp only at hstep
      cases hparallel : spec.parallelSafe with
      | true =>
          rw [if_pos hparallel] at hstep
          refine ⟨{ s with tasks := s.tasks ++ [(p, .start)], position := p + 1 }, [.advance],
            (System.exec_cons hstep).trans rfl, ?_⟩
          refine ⟨rfl, hs.awaited, hs.active, hs.others, hs.returned, ?_, ?_⟩
          · intro task htask
            rcases List.mem_append.mp htask with htask | htask
            · exact hs.start task htask
            · rw [List.mem_singleton.mp htask]
          · intro i hi hi'
            rcases Nat.lt_succ_iff_lt_or_eq.mp hi with hi | rfl
            · obtain ⟨k, hk⟩ := hs.passed i hi hi'
              exact ⟨k, (List.getElem?_append_left (List.getElem?_eq_some_iff.mp hk).1).trans hk⟩
            · exact ⟨s.tasks.length, by simp⟩
      | false =>
          -- the handler ends without having suspended
          have hserial : SerialAt registry calls p := ⟨calls[p], hcall, spec, hspec, hparallel⟩
          have hno : ¬ ParallelAt registry calls p := by
            rintro ⟨call, hcall', spec', hspec', hparallel'⟩
            obtain rfl := Option.some.inj (hcall.symm.trans hcall')
            obtain rfl := Option.some.inj (hspec.symm.trans hspec')
            rw [hparallel] at hparallel'
            cases hparallel'
          have hpassed := hs.pass (s.results.set p (some (executor.resultOf calls[p].name 0 .timeout))) hno
          refine ⟨_, [.advance, .advance] ++ [.finish .timeout 0], ?_, hpassed⟩
          rw [System.exec_append, hs.await hmax hserial]
          simp [System.exec, runBatch, BatchRun.step, BatchRun.finish, hs.active, hs.position, hcall]

end BatchRun.At

/-- **The loop comes to every call** with all its tasks still to start, if no serial handler suspends. -/
theorem exists_at (registry : ToolRegistry η) (hmax : 0 < executor.maxConcurrency) {p : ℕ}
    (hp : p ≤ calls.length) :
    ∃ s : BatchRun ρ, (runBatch ρ executor registry calls).Reachable s ∧ s.At registry calls p := by
  induction p with
  | zero =>
      refine ⟨.start calls, System.Reach.init ⟨0, Nat.zero_le _, rfl⟩, rfl, rfl, rfl, rfl, rfl, ?_, ?_⟩
      · intro task htask
        cases htask
      · intro i hi
        cases hi
  | succ p ih =>
      obtain ⟨s, hs, hat⟩ := ih (Nat.le_of_succ_le hp)
      obtain ⟨t, events, hrun, ht⟩ := hat.next hmax hp
      exact ⟨t, hs.run (System.run_of_exec hrun), ht⟩

/-- With two permits, a task made before a serial call starts beside it when that call suspends. -/
theorem exists_overlap (hmax : 2 ≤ executor.maxConcurrency) {i j : ℕ} (hij : i < j)
    (hparallel : ParallelAt registry calls i) (hserial : SerialAt registry calls j) :
    ∃ s : BatchRun ρ, (runBatch ρ executor registry calls).Reachable s ∧ j ∈ s.inFlight ∧ i ∈ s.inFlight := by
  obtain ⟨call, hcall, hcalls⟩ := id hserial
  have hpos : 0 < executor.maxConcurrency := Nat.lt_of_succ_lt hmax
  obtain ⟨s, hs, hat⟩ := exists_at (ρ := ρ) registry hpos (List.getElem?_eq_some_iff.mp hcall).1.le
  obtain ⟨k, hk⟩ := hat.passed i hij hparallel
  have hawait := hat.await hpos hserial
  let busy : BatchRun ρ := { s with awaited := some .inFlight, active := none }
  have hsuspend : BatchRun.step executor registry calls { s with awaited := some .inFlight } .suspend =
      some busy := by
    simp [BatchRun.step, hat.active, BatchRun.stage, RunStage.isInFlight, busy]
  have hresume : busy.step executor registry calls (.resume (.task k)) =
      some { busy with active := some (.task k) } := by
    simp [BatchRun.step, busy, hat.returned, BatchRun.canResume, BatchRun.stage, hk, RunStage.canResume]
  have hfree : BatchRun.free executor { busy with active := some (.task k) } = true := by
    apply decide_eq_true
    rw [hat.inFlight_length]
    simpa [busy, hat.others, RunStage.isInFlight] using Nat.lt_of_succ_le hmax
  have hacquire : BatchRun.step executor registry calls { busy with active := some (.task k) } .advance =
      some { busy with active := some (.task k), tasks := s.tasks.set k (i, .inFlight) } := by
    simp [BatchRun.step, BatchRun.advance, RunStage.acquire, hfree, busy, hk]
  have hrun : (runBatch ρ executor registry calls).exec s
      ([.advance, .advance] ++ [.suspend, .resume (.task k), .advance]) =
      some { busy with active := some (.task k), tasks := s.tasks.set k (i, .inFlight) } := by
    rw [System.exec_append, hawait, Option.bind_some, System.exec_cons hsuspend, System.exec_cons hresume,
      System.exec_cons hacquire]
    rfl
  refine ⟨_, hs.run (System.run_of_exec hrun), ?_, ?_⟩
  · apply List.mem_append_left
    simp [busy, RunStage.isInFlight, hat.position]
  · apply List.mem_append_right
    refine List.mem_map.mpr ⟨(i, .inFlight), List.mem_filter.mpr ⟨?_, rfl⟩, rfl⟩
    exact Pool.mem_set_of_getElem? hk

/-- **A serial tool is alone in every state of every batch exactly if there is one permit at most or no call of a
    parallel tool stands before one of a serial tool.** -/
theorem exclusive_iff : (∀ s : BatchRun ρ, (runBatch ρ executor registry calls).Reachable s →
      s.Exclusive registry calls) ↔
    executor.maxConcurrency ≤ 1 ∨
      ∀ i j, i < j → ParallelAt registry calls i → ¬ SerialAt registry calls j := by
  constructor
  · intro h
    by_contra hcond
    rw [not_or] at hcond
    obtain ⟨hmax, hordered⟩ := hcond
    apply hordered
    intro i j hij hparallel hserial
    obtain ⟨s, hs, hj, hi⟩ := exists_overlap (ρ := ρ) (Nat.lt_of_not_le hmax) hij hparallel hserial
    -- the serial call is not alone
    rw [h s hs j hj hserial] at hi
    exact hij.ne (List.mem_singleton.mp hi)
  · intro hcond s hs
    exact exclusive_of_inv hcond (reachable_inv hs)

end

/-- The city tools, as far as a batch of them is concerned. -/
def commons : ToolRegistry Unit :=
  ([("workspace_write", false), ("workspace_read", true), ("workspace_list", true), ("run_python", false),
    ("emit_viz_event", false)].map fun (name, parallelSafe) => { name, handler := (), parallelSafe }).foldl
    ToolRegistry.register []

/-- A read beside a write. -/
def readThenWrite : List (Call Unit) := [⟨"workspace_read", ()⟩, ⟨"workspace_write", ()⟩]

/-- **The read of a batch is in flight beside its write.** -/
theorem read_beside_write : ¬ ∀ (executor : ParallelToolExecutor) (registry : ToolRegistry Unit)
    (calls : List (Call Unit)) (s : BatchRun Unit), (runBatch Unit executor registry calls).Reachable s →
      s.Exclusive registry calls := by
  intro hall
  let s₀ : BatchRun Unit := { BatchRun.start readThenWrite with others := 0 }
  have hex : (((runBatch Unit {} commons readThenWrite).exec s₀
      [.advance, .advance, .advance, .suspend, .resume (.task 0), .advance]).any fun s =>
        s.inFlight = [1, 0]) = true := by
    decide +kernel
  obtain ⟨s, hrun, hs⟩ := System.exists_of_exec hex
  have hreach := System.reachable_of_exec (M := runBatch Unit {} commons readThenWrite) ⟨0, Nat.zero_le _, rfl⟩ hrun
  have hinFlight : s.inFlight = [1, 0] := of_decide_eq_true hs
  have hserial : SerialAt commons readThenWrite 1 := ⟨_, rfl, _, rfl, rfl⟩
  have halone := hall {} commons readThenWrite s hreach 1 (hinFlight ▸ List.mem_cons_self) hserial
  rw [hinFlight] at halone
  cases halone

end Persola.Tools
