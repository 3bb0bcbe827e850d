import Persola.Tools.Batch

/-!
# `Tools.Invocations` — which handler is invoked for which call

A batch is run with a record beside it: what each `run_one` was called with, and for each call of the batch which
handlers were invoked and how they ended. The record never changes the run (`run_exec`). Every call has one `run_one` of
its own, so whatever the order in which handlers finish, raise or time out, its entry of the results comes from its own
handler (`runBatch_isolated`).
-/

namespace Persola.Tools

open Runs

variable {η α ρ : Type*}

/-- What `run_one` is called with. -/
structure RunOne (η α : Type*) where
  name : String
  handler : η
  args : α

/-- What was done for a call: the handlers invoked, and how they ended. -/
structure Lane (η α ρ : Type*) where
  invoked : List (RunOne η α) := []
  ended : List (HandlerEnd ρ × ℕ) := []

/-- A batch under way with its record. -/
structure Traced (η α ρ : Type*) where
  run : BatchRun ρ
  /-- What the awaited `run_one` was called with. -/
  awaited : Option (RunOne η α) := none
  /-- What those of the tasks were. -/
  tasks : List (RunOne η α) := []
  lanes : ℕ → Lane η α ρ := fun _ => {}

/-- The call a coroutine is busy with. -/
def BatchRun.callOf (s : BatchRun ρ) : Actor → Option ℕ
  | .batch => some s.position
  | .task k => (s.tasks[k]?).map Prod.fst

/-- The entry of a tool that is not there. -/
def unknownTool (name : String) : ToolCallResult ρ := { name, success := false, error := s!"unknown tool: {name}" }

namespace Traced

variable (executor : ParallelToolExecutor) (registry : ToolRegistry η) (calls : List (Call α))

/-- What the `run_one` of a coroutine was called with. -/
def one (s : Traced η α ρ) : Actor → Option (RunOne η α)
  | .batch => s.awaited
  | .task k => s.tasks[k]?

/-- The loop calls `run_one` for the call it is at. -/
def create (s : Traced η α ρ) : Traced η α ρ :=
  match calls[s.run.position]? with
  | none => s
  | some call =>
      match registry.get call.name with
      | none => s
      | some spec =>
          let one := ⟨call.name, spec.handler, call.args⟩
          if spec.parallelSafe then { s with tasks := s.tasks ++ [one] } else { s with awaited := some one }

/-- `handler(**args)`. -/
def invoke (s : Traced η α ρ) (i : ℕ) (one : RunOne η α) : Traced η α ρ :=
  { s with lanes := Function.update s.lanes i { s.lanes i with invoked := (s.lanes i).invoked ++ [one] } }

/-- The handler of a call is over. -/
def endAt (s : Traced η α ρ) (i : ℕ) (result : HandlerEnd ρ) (durationMs : ℕ) : Traced η α ρ :=
  { s with lanes := Function.update s.lanes i { s.lanes i with ended := (s.lanes i).ended ++ [(result, durationMs)] } }

/-- What an event adds to the record. -/
def record (s : Traced η α ρ) (event : LoopEvent ρ) : Traced η α ρ :=
  match event, s.run.active with
  | .advance, some actor =>
      match s.run.stage actor with
      | none => s.create registry calls
      | some stage =>
          match stage.acquire (s.run.free executor), s.one actor, s.run.callOf actor with
          -- it has a permit and goes on to its handler
          | some (_, true), some one, some i => s.invoke i one
          | _, _, _ => s
  | .finish result durationMs, some actor =>
      match s.run.callOf actor with
      | some i => s.endAt i result durationMs
      | none => s
  | _, _ => s

def step (s : Traced η α ρ) (event : LoopEvent ρ) : Option (Traced η α ρ) :=
  (s.run.step executor registry calls event).map fun run => { s.record executor registry calls event with run }

end Traced

/-- `run_batch` with its record. -/
def tracedBatch (ρ : Type*) (executor : ParallelToolExecutor) (registry : ToolRegistry η) (calls : List (Call α)) :
    System (Traced η α ρ) (LoopEvent ρ) where
  init s := ∃ others ≤ executor.maxConcurrency, s = { run := { BatchRun.start calls with others } }
  step := Traced.step executor registry calls

section
variable {executor : ParallelToolExecutor} {registry : ToolRegistry η} {calls : List (Call α)} {s t : Traced η α ρ}

/-- **The record does not change the run.** -/
theorem run_exec (events : List (LoopEvent ρ)) : ((tracedBatch ρ executor registry calls).exec s events).map Traced.run =
    (runBatch ρ executor registry calls).exec s.run events := by
  induction events generalizing s with
  | nil => rfl
  | cons event events ih =>
      rw [System.exec, System.exec, Option.map_bind]
      show ((s.run.step executor registry calls event).map _).bind _ = _
      rw [Option.bind_map]
      exact congrArg _ (funext fun run => ih)

/-! ## What a step does -/

/-- The steps of a batch, by what they do. -/
inductive Move (executor : ParallelToolExecutor) (registry : ToolRegistry η) (calls : List (Call α)) (s : Traced η α ρ) :
    LoopEvent ρ → Traced η α ρ → Prop
  | unknown {call : Call α} (hcontrol : s.run.active = some .batch) (hidle : s.run.awaited = none)
      (hcall : calls[s.run.position]? = some call) (hget : registry.get call.name = none) :
      Move executor registry calls s .advance { s with run := { s.run with
        results := s.run.results.set s.run.position (some (unknownTool call.name)), position := s.run.position + 1 } }
  | create {call : Call α} {spec : ToolSpec η} (hcontrol : s.run.active = some .batch) (hidle : s.run.awaited = none)
      (hcall : calls[s.run.position]? = some call) (hget : registry.get call.name = some spec)
      (hparallel : spec.parallelSafe = true) :
      Move executor registry calls s .advance { s with
        run := { s.run with tasks := s.run.tasks ++ [(s.run.position, .start)], position := s.run.position + 1 }
        tasks := s.tasks ++ [⟨call.name, spec.handler, call.args⟩] }
  | await {call : Call α} {spec : ToolSpec η} (hcontrol : s.run.active = some .batch) (hidle : s.run.awaited = none)
      (hcall : calls[s.run.position]? = some call) (hget : registry.get call.name = some spec)
      (hserial : spec.parallelSafe = false) :
      Move executor registry calls s .advance { s with
        run := { s.run with awaited := some .start }, awaited := some ⟨call.name, spec.handler, call.args⟩ }
  | gather (hcontrol : s.run.active = some .batch) (hidle : s.run.awaited = none)
      (hend : calls[s.run.position]? = none) (hbusy : s.run.gathered = false) :
      Move executor registry calls s .advance { s with run := { s.run with active := none } }
  | done (hcontrol : s.run.active = some .batch) (hidle : s.run.awaited = none)
      (hend : calls[s.run.position]? = none) (hgathered : s.run.gathered = true) :
      Move executor registry calls s .advance { s with run := { s.run with
        returned := some s.run.collect, active := none } }
  | wait {stage : RunStage ρ} (hcontrol : s.run.active = some .batch) (hstage : s.run.awaited = some stage)
      (hacquire : stage.acquire false = some (.waiting, false)) (hfree : s.run.free executor = false) :
      Move executor registry calls s .advance { s with run := { s.run with awaited := some .waiting, active := none } }
  | invoke {stage : RunStage ρ} (hcontrol : s.run.active = some .batch) (hstage : s.run.awaited = some stage)
      (hacquire : stage.acquire true = some (.inFlight, true)) (hfree : s.run.free executor = true) :
      Move executor registry calls s .advance { s.awaited.elim s (s.invoke s.run.position) with
        run := { s.run with awaited := some .inFlight } }
  | waitTask {k i : ℕ} {stage : RunStage ρ} (hcontrol : s.run.active = some (.task k))
      (htask : s.run.tasks[k]? = some (i, stage)) (hacquire : stage.acquire false = some (.waiting, false))
      (hfree : s.run.free executor = false) :
      Move executor registry calls s .advance { s with
        run := { s.run with tasks := s.run.tasks.set k (i, .waiting), active := none } }
  | invokeTask {k i : ℕ} {stage : RunStage ρ} (hcontrol : s.run.active = some (.task k))
      (htask : s.run.tasks[k]? = some (i, stage)) (hacquire : stage.acquire true = some (.inFlight, true))
      (hfree : s.run.free executor = true) :
      Move executor registry calls s .advance { (s.tasks[k]?).elim s (s.invoke i) with
        run := { s.run with tasks := s.run.tasks.set k (i, .inFlight) } }
  | finish {call : Call α} {result : HandlerEnd ρ} {durationMs : ℕ} (hcontrol : s.run.active = some .batch)
      (hstage : s.run.awaited = some .inFlight) (hcall : calls[s.run.position]? = some call) :
      Move executor registry calls s (.finish result durationMs) { s.endAt s.run.position result durationMs with
        run := { s.run with
          results := s.run.results.set s.run.position (some (executor.resultOf call.name durationMs result))
          awaited := none
          position := s.run.position + 1 } }
  | finishTask {k i : ℕ} {call : Call α} {result : HandlerEnd ρ} {durationMs : ℕ}
      (hcontrol : s.run.active = some (.task k)) (htask : s.run.tasks[k]? = some (i, .inFlight))
      (hcall : calls[i]? = some call) :
      Move executor registry calls s (.finish result durationMs) { s.endAt i result durationMs with
        run := { s.run with
          tasks := s.run.tasks.set k (i, .ended (executor.resultOf call.name durationMs result))
          active := none } }
  | suspend : Move executor registry calls s .suspend { s with run := { s.run with active := none } }
  | resume {actor : Actor} (hcontrol : s.run.active = none) (hreturned : s.run.returned = none)
      (hcan : s.run.canResume executor actor = true) :
      Move executor registry calls s (.resume actor) { s with run := { s.run with active := some actor } }
  | others {held : ℕ} (hcontrol : s.run.active = none) :
      Move executor registry calls s (.others held) { s with run := { s.run with others := held } }

theorem acquire_cases {free : Bool} {stage : RunStage ρ} {r : RunStage ρ × Bool} (h : stage.acquire free = some r) :
    r = if free then (.inFlight, true) else (.waiting, false) := by
  cases stage with
  | start | waiting => exact (Option.some.inj h).symm
  | inFlight => cases h
  | ended _ => cases h

/-- The batch goes on with its list. -/
theorem move_walk (hcontrol : s.run.active = some .batch) (hidle : s.run.awaited = none) :
    Move executor registry calls s .advance
      { s.record executor registry calls .advance with run := s.run.walk registry calls } := by
  have hrecord : s.record executor registry calls .advance = s.create registry calls := by
    simp only [Traced.record, hcontrol, BatchRun.stage, hidle]
  rw [hrecord]
  unfold BatchRun.walk Traced.create
  cases hcall : calls[s.run.position]? with
  | none =>
      cases hgathered : s.run.gathered with
      | true => exact .done hcontrol hidle hcall hgathered
      | false => exact .gather hcontrol hidle hcall hgathered
  | some call =>
      simp only
      cases hget : registry.get call.name with
      | none => exact .unknown hcontrol hidle hcall hget
      | some spec =>
          cases hparallel : spec.parallelSafe with
          | true =>
              simp only [hparallel, ↓reduceIte]
              exact .create hcontrol hidle hcall hget hparallel
          | false =>
              simp only [hparallel, Bool.false_eq_true, ↓reduceIte]
              exact .await hcontrol hidle hcall hget hparallel

/-- The batch goes on in the call that it awaits. -/
theorem move_awaited {stage : RunStage ρ} {run : BatchRun ρ} (hcontrol : s.run.active = some .batch)
    (hawaited : s.run.awaited = some stage)
    (hrun : s.run.step executor registry calls .advance = some run) :
    Move executor registry calls s .advance { s.record executor registry calls .advance with run := run } := by
  simp only [BatchRun.step, BatchRun.advance, hcontrol, hawaited] at hrun
  obtain ⟨r, hacquire, rfl⟩ := Option.map_eq_some_iff.mp hrun
  obtain rfl := acquire_cases hacquire
  have hstage : s.run.stage .batch = some stage := hawaited
  simp only [Traced.record, hcontrol, hstage, hacquire]
  cases hfree : s.run.free executor with
  | true =>
      rw [hfree] at hacquire
      have hmove : Move executor registry calls s .advance _ := .invoke hcontrol hawaited hacquire hfree
      cases hone : s.awaited with
      | none => simpa [Traced.one, hone, BatchRun.callOf, hcontrol] using hmove
      | some one => simpa [Traced.one, hone, BatchRun.callOf, hcontrol] using hmove
  | false =>
      rw [hfree] at hacquire
      exact .wait hcontrol hawaited hacquire hfree

/-- A task goes on. -/
theorem move_task {k : ℕ} {run : BatchRun ρ} (hcontrol : s.run.active = some (.task k))
    (hrun : s.run.step executor registry calls .advance = some run) :
    Move executor registry calls s .advance { s.record executor registry calls .advance with run := run } := by
  simp only [BatchRun.step, BatchRun.advance, hcontrol] at hrun
  split at hrun
  · next i stage htask =>
      obtain ⟨r, hacquire, rfl⟩ := Option.map_eq_some_iff.mp hrun
      obtain rfl := acquire_cases hacquire
      have hstage : s.run.stage (.task k) = some stage := by rw [BatchRun.stage, htask, Option.map_some]
      have hcall : s.run.callOf (.task k) = some i := by rw [BatchRun.callOf, htask, Option.map_some]
      simp only [Traced.record, hcontrol, hstage, hacquire, hcall]
      cases hfree : s.run.free executor with
      | true =>
          rw [hfree] at hacquire
          have hmove : Move executor registry calls s .advance _ := .invokeTask hcontrol htask hacquire hfree
          cases hone : s.tasks[k]? with
          | none => simpa [Traced.one, hone, hcontrol] using hmove
          | some one => simpa [Traced.one, hone, hcontrol] using hmove
      | false =>
          rw [hfree] at hacquire
          exact .waitTask hcontrol htask hacquire hfree
  · cases hrun

/-- A handler ends. -/
theorem move_finish {result : HandlerEnd ρ} {durationMs : ℕ} {run : BatchRun ρ}
    (hrun : s.run.step executor registry calls (.finish result durationMs) = some run) :
    Move executor registry calls s (.finish result durationMs)
      { s.record executor registry calls (.finish result durationMs) with run := run } := by
  simp only [BatchRun.step, BatchRun.finish] at hrun
  split at hrun
  · next hcontrol =>
      split at hrun
      · next call hstage hcall =>
          obtain rfl := Option.some.inj hrun
          have hmove : Move executor registry calls s (.finish result durationMs) _ := .finish hcontrol hstage hcall
          simpa only [Traced.record, hcontrol, BatchRun.callOf] using hmove
      · cases hrun
  · next k hcontrol =>
      split at hrun
      · next i htask =>
          obtain ⟨call, hcall, rfl⟩ := Option.map_eq_some_iff.mp hrun
          simp only [Traced.record, hcontrol, BatchRun.callOf, htask, Option.map_some]
          exact .finishTask hcontrol htask hcall
      · cases hrun
  · cases hrun

/-- Every step is one of the moves. -/
theorem Traced.move {event : LoopEvent ρ} (h : s.step executor registry calls event = some t) :
    Move executor registry calls s event t := by
  obtain ⟨run, hrun, rfl⟩ := Option.map_eq_some_iff.mp h
  cases event with
  | advance =>
      cases hcontrol : s.run.active with
      | none =>
          simp only [BatchRun.step, BatchRun.advance, hcontrol] at hrun
          cases hrun
      | some actor =>
          cases actor with
          | batch =>
              cases hawaited : s.run.awaited with
              | none =>
                  simp only [BatchRun.step, BatchRun.advance, hcontrol, hawaited] at hrun
                  obtain rfl := Option.some.inj hrun
                  exact move_walk hcontrol hawaited
              | some stage => exact move_awaited hcontrol hawaited hrun
          | task k => exact move_task hcontrol hrun
  | suspend =>
      simp only [BatchRun.step] at hrun
      split at hrun
      · obtain rfl := Option.some.inj hrun
        exact .suspend
      · cases hrun
  | finish result durationMs => exact move_finish hrun
  | resume actor =>
      simp only [BatchRun.step] at hrun
      split at hrun
      · next hcan =>
          obtain rfl := Option.some.inj hrun
          exact .resume hcan.1 (Option.isNone_iff_eq_none.mp hcan.2.1) hcan.2.2
      · cases hrun
  | others held =>
      simp only [BatchRun.step] at hrun
      split at hrun
      · next hheld =>
          obtain rfl := Option.some.inj hrun
          exact .others hheld.1
      · cases hrun

/-! ## The books -/

/-- The `run_one` of a call whose tool is there; whether it may run beside others. -/
def RunsCall (registry : ToolRegistry η) (calls : List (Call α)) (i : ℕ) (parallel : Bool) (one : RunOne η α) : Prop :=
  ∃ call spec, calls[i]? = some call ∧ registry.get call.name = some spec ∧ spec.parallelSafe = parallel ∧
    one = ⟨call.name, spec.handler, call.args⟩

theorem RunsCall.name {i : ℕ} {parallel : Bool} {one : RunOne η α} (h : RunsCall registry calls i parallel one)
    {call : Call α} (hcall : calls[i]? = some call) : one.name = call.name := by
  obtain ⟨call', spec, hcall', -, -, rfl⟩ := h
  rw [Option.some.inj (hcall'.symm.trans hcall)]

theorem RunsCall.unique {i : ℕ} {p q : Bool} {one one' : RunOne η α} (h : RunsCall registry calls i p one)
    (h' : RunsCall registry calls i q one') : p = q ∧ one = one' := by
  obtain ⟨call, spec, hcall, hget, rfl, rfl⟩ := h
  obtain ⟨call', spec', hcall', hget', rfl, rfl⟩ := h'
  obtain rfl := Option.some.inj (hcall.symm.trans hcall')
  obtain rfl := Option.some.inj (hget.symm.trans hget')
  exact ⟨rfl, rfl⟩

/-- What was done for a call whose `run_one` stands here. -/
def Lane.At (executor : ParallelToolExecutor) (one : RunOne η α) (lane : Lane η α ρ) : RunStage ρ → Prop
  | .start | .waiting => lane = {}
  | .inFlight => lane = ⟨[one], []⟩
  | .ended result => ∃ e durationMs, lane = ⟨[one], [(e, durationMs)]⟩ ∧
      result = executor.resultOf one.name durationMs e

/-- The loop is past a call: its tool is unknown, or it was awaited to its end, or it has a task. -/
inductive Passed (executor : ParallelToolExecutor) (registry : ToolRegistry η) (calls : List (Call α))
    (results : List (Option (ToolCallResult ρ))) (tasks : List (ℕ × RunStage ρ)) (lanes : ℕ → Lane η α ρ) (i : ℕ) : Prop
  | unknown {call : Call α} (hcall : calls[i]? = some call) (hget : registry.get call.name = none)
      (hresult : results[i]? = some (some (unknownTool call.name))) (hlane : lanes i = {})
  | serial {one : RunOne η α} {result : ToolCallResult ρ} (hone : RunsCall registry calls i false one)
      (hresult : results[i]? = some (some result)) (hlane : (lanes i).At executor one (.ended result))
  | parallel (htask : i ∈ tasks.map Prod.fst)

/-- The books of a batch: each call it has come to has one `run_one`, with its own arguments, and what was done for it is
what this one stands at. -/
structure Books (executor : ParallelToolExecutor) (registry : ToolRegistry η) (calls : List (Call α))
    (s : Traced η α ρ) : Prop where
  results : s.run.results.length = calls.length
  within : s.run.position ≤ calls.length
  indices : (s.run.tasks.map Prod.fst).Nodup
  length : s.tasks.length = s.run.tasks.length
  tasks : ∀ (k i : ℕ) (stage : RunStage ρ), s.run.tasks[k]? = some (i, stage) → i < s.run.position ∧
    ∃ one, s.tasks[k]? = some one ∧ RunsCall registry calls i true one ∧ (s.lanes i).At executor one stage
  awaited : ∀ stage, s.run.awaited = some stage → ∃ one, s.awaited = some one ∧
    RunsCall registry calls s.run.position false one ∧ (s.lanes s.run.position).At executor one stage
  passed : ∀ i < s.run.position, Passed executor registry calls s.run.results s.run.tasks s.lanes i
  ahead : ∀ i, s.run.position ≤ i → (i = s.run.position → s.run.awaited = none) → s.lanes i = {}

/-- A call that is passed stays so when only what it does not look at changes. -/
theorem Passed.frame {results results' : List (Option (ToolCallResult ρ))} {tasks tasks' : List (ℕ × RunStage ρ)}
    {lanes lanes' : ℕ → Lane η α ρ} {i : ℕ} (h : Passed executor registry calls results tasks lanes i)
    (hresults : results'[i]? = results[i]?) (htasks : ∀ j ∈ tasks.map Prod.fst, j ∈ tasks'.map Prod.fst)
    (hlanes : (∀ one, ¬ RunsCall registry calls i true one) → lanes' i = lanes i) :
    Passed executor registry calls results' tasks' lanes' i := by
  cases h with
  | @unknown call hcall hget hresult hlane =>
      refine .unknown hcall hget (hresults.trans hresult) ((hlanes fun one hone => ?_).trans hlane)
      obtain ⟨call', spec, hcall', hget', -, -⟩ := hone
      obtain rfl := Option.some.inj (hcall.symm.trans hcall')
      rw [hget] at hget'
      cases hget'
  | serial hone hresult hlane =>
      have hsame := hlanes fun one' hone' => Bool.false_ne_true (hone.unique hone').1
      exact .serial hone (hresults.trans hresult) (hsame ▸ hlane)
  | parallel htask => exact .parallel (htasks i htask)

theorem Books.index_inj (h : Books executor registry calls s) {k k' i : ℕ} {stage stage' : RunStage ρ}
    (hk : s.run.tasks[k]? = some (i, stage)) (hk' : s.run.tasks[k']? = some (i, stage')) : k = k' := by
  obtain ⟨hlt, -⟩ := List.getElem?_eq_some_iff.mp hk
  have hmap : (s.run.tasks.map Prod.fst)[k]? = (s.run.tasks.map Prod.fst)[k']? := by
    rw [List.getElem?_map, List.getElem?_map, hk, hk']
    rfl
  exact (List.getElem?_inj (by simpa using hlt) h.indices).mp hmap

/-- Who is in control and who has permits is not in the books. -/
theorem Books.control (h : Books executor registry calls s) (active : Option Actor) (others : ℕ)
    (returned : Option (List (ToolCallResult ρ))) :
    Books executor registry calls { s with run := { s.run with active, others, returned } } :=
  ⟨h.results, h.within, h.indices, h.length, h.tasks, h.awaited, h.passed, h.ahead⟩

/-- A task goes on, and its lane with it. -/
theorem Books.setTask (h : Books executor registry calls s) {k i : ℕ} {stage stage' : RunStage ρ} {lane : Lane η α ρ}
    (htask : s.run.tasks[k]? = some (i, stage))
    (hlane : ∀ one, s.tasks[k]? = some one → RunsCall registry calls i true one →
      (s.lanes i).At executor one stage → lane.At executor one stage') :
    Books executor registry calls { s with
      lanes := Function.update s.lanes i lane, run := { s.run with tasks := s.run.tasks.set k (i, stage') } } := by
  have hindices : (s.run.tasks.set k (i, stage')).map Prod.fst = s.run.tasks.map Prod.fst := by
    rw [List.map_set]
    exact Pool.set_self (by rw [List.getElem?_map, htask, Option.map_some])
  obtain ⟨hlt, one, hone, hcall, hat⟩ := h.tasks k i stage htask
  refine ⟨h.results, h.within, hindices ▸ h.indices, by simpa using h.length, ?_, ?_, ?_, ?_⟩
  · intro k' i' stage'' htask'
    by_cases hk : k = k'
    · subst hk
      rw [List.getElem?_set_self (List.getElem?_eq_some_iff.mp htask).1] at htask'
      obtain ⟨rfl, rfl⟩ := Prod.mk.inj (Option.some.inj htask')
      refine ⟨hlt, one, hone, hcall, ?_⟩
      dsimp only
      rw [Function.update_self]
      exact hlane one hone hcall hat
    · have htask' : s.run.tasks[k']? = some (i', stage'') := (List.getElem?_set_ne hk).symm.trans htask'
      have hi : i' ≠ i := fun hi => hk (h.index_inj htask (hi ▸ htask'))
      dsimp only
      rw [Function.update_of_ne hi]
      exact h.tasks k' i' stage'' htask'
  · intro stage'' hawaited
    dsimp only
    rw [Function.update_of_ne hlt.ne']
    exact h.awaited stage'' hawaited
  · intro j hj
    refine (h.passed j hj).frame rfl (fun j hj => hindices ▸ hj) fun hno => Function.update_of_ne ?_ _ _
    rintro rfl
    exact hno one hcall
  · intro j hj hawaited
    have hne : j ≠ i := fun hi => absurd hj (not_le.mpr (hi ▸ hlt))
    dsimp only
    rw [Function.update_of_ne hne]
    exact h.ahead j hj hawaited

/-- The awaited `run_one` goes on, and its lane with it. -/
theorem Books.setAwaited (h : Books executor registry calls s) {stage stage' : RunStage ρ} {lane : Lane η α ρ}
    (hstage : s.run.awaited = some stage)
    (hlane : ∀ one, s.awaited = some one → (s.lanes s.run.position).At executor one stage →
      lane.At executor one stage') :
    Books executor registry calls { s with
      lanes := Function.update s.lanes s.run.position lane, run := { s.run with awaited := some stage' } } := by
  obtain ⟨one, hone, hcall, hat⟩ := h.awaited stage hstage
  refine ⟨h.results, h.within, h.indices, h.length, ?_, ?_, ?_, ?_⟩
  · intro k i stage'' htask
    have hi := h.tasks k i stage'' htask
    dsimp only
    rw [Function.update_of_ne hi.1.ne]
    exact hi
  · intro stage'' hawaited
    obtain rfl := Option.some.inj hawaited
    refine ⟨one, hone, hcall, ?_⟩
    dsimp only
    rw [Function.update_self]
    exact hlane one hone hat
  · intro j hj
    exact (h.passed j hj).frame rfl (fun _ => id) fun _ => Function.update_of_ne hj.ne _ _
  · intro j hj hawaited
    have hne : j ≠ s.run.position := by
      rintro rfl
      cases hawaited rfl
    dsimp only
    rw [Function.update_of_ne hne]
    exact h.ahead j hj fun hj => absurd hj hne

/-- The loop goes past a call. -/
theorem Books.pass (h : Books executor registry calls s) {results : List (Option (ToolCallResult ρ))}
    {tasks : List (ℕ × RunStage ρ)} {ones : List (RunOne η α)} {lanes : ℕ → Lane η α ρ}
    (hlt : s.run.position < calls.length) (hlength : results.length = calls.length)
    (hresults : ∀ j < s.run.position, results[j]? = s.run.results[j]?)
    (hlanes : ∀ j ≠ s.run.position, lanes j = s.lanes j)
    (htasks : tasks = s.run.tasks ∧ ones = s.tasks ∨ ∃ one, tasks = s.run.tasks ++ [(s.run.position, .start)] ∧
      ones = s.tasks ++ [one] ∧ RunsCall registry calls s.run.position true one ∧ lanes s.run.position = {})
    (hpassed : Passed executor registry calls results tasks lanes s.run.position) :
    Books executor registry calls { s with
      lanes, tasks := ones
      run := { s.run with results, tasks, awaited := none, position := s.run.position + 1 } } := by
  have hold {k i : ℕ} {stage : RunStage ρ} (htask : s.run.tasks[k]? = some (i, stage)) :
      i < s.run.position + 1 ∧ ∃ one, s.tasks[k]? = some one ∧ RunsCall registry calls i true one ∧
        (lanes i).At executor one stage := by
    obtain ⟨hi, hone⟩ := h.tasks k i stage htask
    rw [hlanes i hi.ne]
    exact ⟨Nat.lt_succ_of_lt hi, hone⟩
  have hkeep : ∀ j ∈ s.run.tasks.map Prod.fst, j ∈ tasks.map Prod.fst := by
    rcases htasks with ⟨rfl, -⟩ | ⟨one, rfl, -⟩
    · exact fun _ => id
    · intro j hj
      rw [List.map_append]
      exact List.mem_append_left _ hj
  refine ⟨hlength, hlt, ?_, ?_, ?_, (fun stage hstage => nomatch hstage), ?_, ?_⟩
  · rcases htasks with ⟨rfl, -⟩ | ⟨one, rfl, -⟩
    · exact h.indices
    · show ((s.run.tasks ++ [(s.run.position, RunStage.start)]).map Prod.fst).Nodup
      rw [List.map_append, List.map_singleton]
      refine h.indices.append (List.nodup_singleton _) fun j hj hlast => ?_
      obtain rfl := List.mem_singleton.mp hlast
      obtain ⟨⟨i, stage⟩, hmem, rfl⟩ := List.mem_map.mp hj
      obtain ⟨k, hk⟩ := List.mem_iff_getElem?.mp hmem
      exact absurd (h.tasks k _ _ hk).1 (lt_irrefl _)
  · rcases htasks with ⟨rfl, rfl⟩ | ⟨one, rfl, rfl, -⟩
    · exact h.length
    · simpa using h.length
  · intro k i stage htask
    rcases htasks with ⟨rfl, rfl⟩ | ⟨one, rfl, rfl, hone, hlane⟩
    · exact hold htask
    · rcases lt_or_ge k s.run.tasks.length with hk | hk
      · have hone : (s.tasks ++ [one])[k]? = s.tasks[k]? := List.getElem?_append_left (h.length ▸ hk)
        dsimp only at htask ⊢
        rw [hone]
        exact hold ((List.getElem?_append_left hk).symm.trans htask)
      · have htask : [(s.run.position, RunStage.start)][k - s.run.tasks.length]? = some (i, stage) :=
          (List.getElem?_append_right hk).symm.trans htask
        obtain ⟨hlast, heq⟩ := List.getElem?_eq_some_iff.mp htask
        obtain rfl : k = s.run.tasks.length := by
          rw [List.length_singleton] at hlast
          omega
        simp only [Nat.sub_self, List.getElem_cons_zero] at heq
        obtain ⟨rfl, rfl⟩ := Prod.mk.inj heq
        exact ⟨Nat.lt_succ_self _, one, by simp [← h.length], hone, hlane⟩
  · intro j hj
    rcases Nat.lt_succ_iff_lt_or_eq.mp hj with hj | rfl
    · exact (h.passed j hj).frame (hresults j hj) hkeep fun _ => hlanes j hj.ne
    · exact hpassed
  · intro j hj _
    have hj : s.run.position + 1 ≤ j := hj
    dsimp only
    rw [hlanes j (by omega)]
    exact h.ahead j (by omega) fun heq => absurd heq (by omega)

theorem lt_length {call : Call α} (hcall : calls[s.run.position]? = some call) : s.run.position < calls.length :=
  (List.getElem?_eq_some_iff.mp hcall).1

theorem Lane.at_of_acquire {free : Bool} {stage : RunStage ρ} {r : RunStage ρ × Bool} {one : RunOne η α}
    {lane : Lane η α ρ} (h : stage.acquire free = some r) (hlane : lane.At executor one stage) : lane = {} := by
  cases stage with
  | start | waiting => exact hlane
  | inFlight => cases h
  | ended _ => cases h

/-- **Every step keeps the books.** -/
theorem Books.step {event : LoopEvent ρ} (h : Books executor registry calls s)
    (hstep : s.step executor registry calls event = some t) : Books executor registry calls t := by
  cases Traced.move hstep with
  | @unknown call hcontrol hidle hcall hget =>
      have hlt := lt_length hcall
      have hset : (s.run.results.set s.run.position (some (unknownTool call.name)))[s.run.position]? =
          some (some (unknownTool call.name)) := List.getElem?_set_self (h.results ▸ hlt)
      have hlane := h.ahead _ le_rfl fun _ => hidle
      have hpass := h.pass hlt ((List.length_set ..).trans h.results) (fun j hj => List.getElem?_set_ne hj.ne')
        (fun _ _ => rfl) (.inl ⟨rfl, rfl⟩) (.unknown hcall hget hset hlane)
      rw [← hidle] at hpass
      exact hpass
  | @create call spec hcontrol hidle hcall hget hparallel =>
      have hlane := h.ahead _ le_rfl fun _ => hidle
      have hpass := h.pass (lt_length hcall) h.results (fun _ _ => rfl) (fun _ _ => rfl)
        (.inr ⟨_, rfl, rfl, ⟨call, spec, hcall, hget, hparallel, rfl⟩, hlane⟩) (.parallel (by simp))
      rw [← hidle] at hpass
      exact hpass
  | @await call spec hcontrol hidle hcall hget hserial =>
      refine ⟨h.results, h.within, h.indices, h.length, h.tasks, ?_, h.passed, ?_⟩
      · intro stage hstage
        obtain rfl := Option.some.inj hstage
        exact ⟨_, rfl, ⟨call, spec, hcall, hget, hserial, rfl⟩, h.ahead _ le_rfl fun _ => hidle⟩
      · exact fun j hj hawaited => h.ahead j hj fun _ => hidle
  | gather => exact h.control _ _ _
  | done => exact h.control _ _ _
  | wait hcontrol hstage hacquire hfree =>
      have hlane {one : RunOne η α} (hat : (s.lanes s.run.position).At executor one _) :
          (s.lanes s.run.position).At executor one .waiting := Lane.at_of_acquire hacquire hat
      have hset := h.setAwaited hstage fun one _ => hlane
      rw [Function.update_eq_self] at hset
      exact hset.control _ _ _
  | invoke hcontrol hstage hacquire hfree =>
      obtain ⟨one, hone, -⟩ := h.awaited _ hstage
      rw [hone]
      refine h.setAwaited hstage fun one' hone' hat => ?_
      obtain rfl := Option.some.inj (hone.symm.trans hone')
      rw [Lane.at_of_acquire hacquire hat]
      rfl
  | @waitTask k i stage hcontrol htask hacquire hfree =>
      have hlane {one : RunOne η α} (hat : (s.lanes i).At executor one stage) :
          (s.lanes i).At executor one .waiting := Lane.at_of_acquire hacquire hat
      have hset := h.setTask htask fun one _ _ => hlane
      rw [Function.update_eq_self] at hset
      exact hset.control _ _ _
  | invokeTask hcontrol htask hacquire hfree =>
      obtain ⟨-, one, hone, -⟩ := h.tasks _ _ _ htask
      rw [hone]
      refine h.setTask htask fun one' hone' _ hat => ?_
      obtain rfl := Option.some.inj (hone.symm.trans hone')
      rw [Lane.at_of_acquire hacquire hat]
      rfl
  | @finish call result durationMs hcontrol hstage hcall =>
      have hlt := lt_length hcall
      obtain ⟨one, hone, hruns, hat⟩ := h.awaited _ hstage
      have hlane : s.lanes s.run.position = ⟨[one], []⟩ := hat
      have hset : (s.run.results.set s.run.position (some (executor.resultOf call.name durationMs result)))[
          s.run.position]? = some (some (executor.resultOf call.name durationMs result)) :=
        List.getElem?_set_self (h.results ▸ hlt)
      refine h.pass hlt ((List.length_set ..).trans h.results) (fun j hj => List.getElem?_set_ne hj.ne')
        (fun j hj => Function.update_of_ne hj _ _) (.inl ⟨rfl, rfl⟩) (.serial hruns hset ?_)
      show Lane.At executor one (Function.update s.lanes s.run.position _ s.run.position) _
      rw [Function.update_self, hlane]
      exact ⟨result, durationMs, rfl, by rw [hruns.name hcall]⟩
  | @finishTask k i call result durationMs hcontrol htask hcall =>
      refine (h.setTask htask fun one hone hruns hat => ?_).control _ _ _
      have hlane : s.lanes i = ⟨[one], []⟩ := hat
      rw [hlane]
      exact ⟨result, durationMs, rfl, by rw [hruns.name hcall]⟩
  | suspend => exact h.control _ _ _
  | resume => exact h.control _ _ _
  | others => exact h.control _ _ _

theorem books_of_reachable (h : (tracedBatch ρ executor registry calls).Reachable s) : Books executor registry calls s := by
  refine h.invariant (fun s hs => ?_) fun s event t hI _ ht => hI.step ht
  obtain ⟨others, -, rfl⟩ := hs
  refine ⟨List.length_map _, Nat.zero_le _, List.nodup_nil, rfl, fun k i stage hk => ?_, (fun stage hs => nomatch hs),
    fun j hj => absurd hj (Nat.not_lt_zero j), fun _ _ _ => rfl⟩
  cases hk

theorem Lane.invoked_of_at {one : RunOne η α} {lane : Lane η α ρ} {stage : RunStage ρ} (h : lane.At executor one stage) :
    lane.invoked = [] ∨ lane.invoked = [one] := by
  cases stage with
  | start | waiting => exact .inl (congrArg Lane.invoked h)
  | inFlight => exact .inr (congrArg Lane.invoked h)
  | ended result =>
      obtain ⟨e, durationMs, rfl, -⟩ := h
      exact .inr rfl

/-- **For a call no handler is ever invoked but its own, once.** -/
theorem Books.invoked (h : Books executor registry calls s) (i : ℕ) : (s.lanes i).invoked = [] ∨
    ∃ call spec, calls[i]? = some call ∧ registry.get call.name = some spec ∧
      (s.lanes i).invoked = [⟨call.name, spec.handler, call.args⟩] := by
  have hruns {p : Bool} {one : RunOne η α} {stage : RunStage ρ} (hone : RunsCall registry calls i p one)
      (hat : (s.lanes i).At executor one stage) : (s.lanes i).invoked = [] ∨
        ∃ call spec, calls[i]? = some call ∧ registry.get call.name = some spec ∧
          (s.lanes i).invoked = [⟨call.name, spec.handler, call.args⟩] := by
    obtain ⟨call, spec, hcall, hget, -, rfl⟩ := hone
    exact (Lane.invoked_of_at hat).imp id fun hinvoked => ⟨call, spec, hcall, hget, hinvoked⟩
  have hnone (hlane : s.lanes i = {}) : (s.lanes i).invoked = [] := congrArg Lane.invoked hlane
  rcases lt_or_ge i s.run.position with hi | hi
  · cases h.passed i hi with
    | unknown hcall hget hresult hlane => exact .inl (hnone hlane)
    | serial hone hresult hlane => exact hruns hone hlane
    | parallel htask =>
        obtain ⟨⟨j, stage⟩, hmem, rfl⟩ := List.mem_map.mp htask
        obtain ⟨k, hk⟩ := List.mem_iff_getElem?.mp hmem
        obtain ⟨-, one, -, hone, hat⟩ := h.tasks k j stage hk
        exact hruns hone hat
  · by_cases hhere : i = s.run.position ∧ s.run.awaited ≠ none
    · obtain ⟨rfl, hawaited⟩ := hhere
      obtain ⟨stage, hstage⟩ := Option.ne_none_iff_exists'.mp hawaited
      obtain ⟨one, -, hone, hat⟩ := h.awaited stage hstage
      exact hruns hone hat
    · refine .inl (hnone (h.ahead i hi fun hhere' => ?_))
      by_contra hawaited
      exact hhere ⟨hhere', hawaited⟩

/-! ## Control -/

/-- Who is in control can go on, and a batch that has returned is over. -/
structure Control (executor : ParallelToolExecutor) (calls : List (Call α)) (s : BatchRun ρ) : Prop where
  task : ∀ k, s.active = some (.task k) → ∃ i stage, s.tasks[k]? = some (i, stage) ∧ ∀ r, stage ≠ .ended r
  awaited : ∀ r, s.awaited ≠ some (.ended r)
  permit : ∀ actor, s.active = some actor → s.stage actor = some .waiting → s.free executor = true
  returned : ∀ results, s.returned = some results → s.active = none ∧ calls[s.position]? = none ∧ s.gathered = true ∧
    results = s.collect

theorem Control.running (h : Control executor calls s.run) {actor : Actor} (hcontrol : s.run.active = some actor) :
    s.run.returned = none := by
  cases hreturned : s.run.returned with
  | none => rfl
  | some results =>
      have hnone := (h.returned results hreturned).1
      rw [hcontrol] at hnone
      cases hnone

/-- A state in which the loop walks on has a coroutine in control that waits for nothing. -/
theorem Control.of_walk {run : BatchRun ρ} (hactive : run.active = some .batch)
    (hstage : run.awaited = none ∨ run.awaited = some .start ∨ run.awaited = some .inFlight)
    (hreturned : run.returned = none) : Control executor calls run where
  task k hk := by
    rw [hactive] at hk
    cases hk
  awaited r hr := by
    rcases hstage with h | h | h
    all_goals
      rw [h] at hr
      cases hr
  permit actor hactor hwaiting := by
    rw [hactive] at hactor
    obtain rfl := Option.some.inj hactor
    have hwaiting : run.awaited = some .waiting := hwaiting
    rcases hstage with h | h | h
    all_goals
      rw [h] at hwaiting
      cases hwaiting
  returned results hresults := by
    rw [hreturned] at hresults
    cases hresults

/-- A state in which nobody is in control before the batch has returned. -/
theorem Control.of_idle {run : BatchRun ρ} (hactive : run.active = none) (hawaited : ∀ r, run.awaited ≠ some (.ended r))
    (hreturned : run.returned = none) : Control executor calls run where
  task k hk := by
    rw [hactive] at hk
    cases hk
  awaited := hawaited
  permit actor hactor _ := by
    rw [hactive] at hactor
    cases hactor
  returned results hresults := by
    rw [hreturned] at hresults
    cases hresults

theorem exists_of_canResume {run : BatchRun ρ} {k : ℕ} (h : run.canResume executor (.task k) = true) :
    ∃ i stage, run.tasks[k]? = some (i, stage) ∧ stage.canResume (run.free executor) = true := by
  have hstage : run.stage (.task k) = (run.tasks[k]?).map Prod.snd := rfl
  unfold BatchRun.canResume at h
  rw [hstage] at h
  cases htask : run.tasks[k]? with
  | none =>
      rw [htask] at h
      simp at h
  | some task =>
      rw [htask] at h
      exact ⟨task.1, task.2, rfl, h⟩

theorem Control.step {event : LoopEvent ρ} (h : Control executor calls s.run)
    (hstep : s.step executor registry calls event = some t) : Control executor calls t.run := by
  cases Traced.move hstep with
  | unknown hcontrol hidle => exact .of_walk hcontrol (.inl hidle) (h.running hcontrol)
  | create hcontrol hidle => exact .of_walk hcontrol (.inl hidle) (h.running hcontrol)
  | await hcontrol => exact .of_walk hcontrol (.inr (.inl rfl)) (h.running hcontrol)
  | gather hcontrol => exact .of_idle rfl h.awaited (h.running hcontrol)
  | done hcontrol hidle hend hgathered =>
      refine ⟨(fun k hk => nomatch hk), h.awaited, (fun actor hactor => nomatch hactor), fun results hresults => ?_⟩
      obtain rfl := Option.some.inj hresults
      exact ⟨rfl, hend, hgathered, rfl⟩
  | wait hcontrol => exact .of_idle rfl (fun r hr => nomatch hr) (h.running hcontrol)
  | invoke hcontrol => exact .of_walk hcontrol (.inr (.inr rfl)) (h.running hcontrol)
  | waitTask hcontrol => exact .of_idle rfl h.awaited (h.running hcontrol)
  | @invokeTask k i stage hcontrol htask =>
      have hset : (s.run.tasks.set k (i, RunStage.inFlight))[k]? = some (i, .inFlight) :=
        List.getElem?_set_self (List.getElem?_eq_some_iff.mp htask).1
      refine ⟨fun k' hk' => ?_, h.awaited, fun actor hactor hwaiting => ?_, fun results hresults => ?_⟩
      · obtain rfl : k = k' := Actor.task.inj (Option.some.inj (hcontrol.symm.trans hk'))
        exact ⟨i, .inFlight, hset, fun r hr => nomatch hr⟩
      · obtain rfl : .task k = actor := Option.some.inj (hcontrol.symm.trans hactor)
        have hwaiting : ((s.run.tasks.set k (i, RunStage.inFlight))[k]?).map Prod.snd = some .waiting := hwaiting
        rw [hset] at hwaiting
        cases hwaiting
      · have hresults : s.run.returned = some results := hresults
        rw [h.running hcontrol] at hresults
        cases hresults
  | finish hcontrol => exact .of_walk hcontrol (.inl rfl) (h.running hcontrol)
  | finishTask hcontrol => exact .of_idle rfl h.awaited (h.running hcontrol)
  | suspend =>
      refine ⟨(fun k hk => nomatch hk), h.awaited, (fun actor hactor => nomatch hactor), fun results hresults => ?_⟩
      exact ⟨rfl, (h.returned results hresults).2⟩
  | @resume actor hcontrol hreturned hcan =>
      refine ⟨fun k hk => ?_, h.awaited, fun actor' hactor hwaiting => ?_, fun results hresults => ?_⟩
      · obtain rfl := Option.some.inj hk
        obtain ⟨i, stage, htask, hstage⟩ := exists_of_canResume hcan
        refine ⟨i, stage, htask, fun r hr => ?_⟩
        rw [hr] at hstage
        cases hstage
      · obtain rfl := Option.some.inj hactor
        have hwaiting : s.run.stage actor = some .waiting := hwaiting
        unfold BatchRun.canResume at hcan
        rw [hwaiting] at hcan
        exact hcan
      · have hresults : s.run.returned = some results := hresults
        rw [hreturned] at hresults
        cases hresults
  | @others held hcontrol =>
      refine ⟨fun k hk => ?_, h.awaited, fun actor hactor => ?_, h.returned⟩
      · have hk : s.run.active = some (.task k) := hk
        rw [hcontrol] at hk
        cases hk
      · have hactor : s.run.active = some actor := hactor
        rw [hcontrol] at hactor
        cases hactor

theorem control_of_reachable (h : (tracedBatch ρ executor registry calls).Reachable s) : Control executor calls s.run := by
  refine System.Reach.invariant (I := fun s => Control executor calls s.run) (fun s hs => ?_) ?_ h
  · obtain ⟨others, -, rfl⟩ := hs
    exact .of_walk rfl (.inl rfl) rfl
  · exact fun s event t hI _ ht => Control.step hI ht

/-! ## Results -/

/-- The result of a task in the place of its call. -/
def place (results : List (Option (ToolCallResult ρ))) (task : ℕ × RunStage ρ) : List (Option (ToolCallResult ρ)) :=
  match task.2 with
  | .ended result => results.set task.1 (some result)
  | _ => results

theorem collect_eq (s : BatchRun ρ) : s.collect = (s.tasks.foldl place s.results).map
    (·.getD { name := "unknown", success := false, error := "missing" }) := rfl

theorem length_foldl_place (tasks : List (ℕ × RunStage ρ)) (results : List (Option (ToolCallResult ρ))) :
    (tasks.foldl place results).length = results.length := by
  induction tasks generalizing results with
  | nil => rfl
  | cons task tasks ih =>
      rw [List.foldl_cons, ih, place]
      split
      · exact List.length_set ..
      · rfl

/-- The results of other calls are put elsewhere. -/
theorem foldl_place_of_not_mem {tasks : List (ℕ × RunStage ρ)} {i : ℕ} (h : i ∉ tasks.map Prod.fst)
    (results : List (Option (ToolCallResult ρ))) :
    (tasks.foldl place results)[i]? = results[i]? := by
  induction tasks generalizing results with
  | nil => rfl
  | cons task tasks ih =>
      rw [List.map_cons, List.mem_cons, not_or] at h
      rw [List.foldl_cons, ih h.2, place]
      split
      · exact List.getElem?_set_ne (Ne.symm h.1)
      · rfl

/-- The result of a task is put in the place of its call. -/
theorem foldl_place_of_mem {tasks : List (ℕ × RunStage ρ)} {i : ℕ} {result : ToolCallResult ρ}
    (hnodup : (tasks.map Prod.fst).Nodup) (h : (i, .ended result) ∈ tasks)
    {results : List (Option (ToolCallResult ρ))} (hi : i < results.length) :
    (tasks.foldl place results)[i]? = some (some result) := by
  induction tasks generalizing results with
  | nil => cases h
  | cons task tasks ih =>
      obtain ⟨hnew, hnodup⟩ := List.nodup_cons.mp hnodup
      rw [List.foldl_cons]
      rcases List.mem_cons.mp h with rfl | h
      · rw [foldl_place_of_not_mem hnew]
        exact List.getElem?_set_self hi
      · refine ih hnodup h ?_
        rw [place]
        split
        · rw [List.length_set]
          exact hi
        · exact hi

/-- The entry of a call whose tool is unknown, or what its own handler, invoked once with its own arguments, came to. -/
def Settled (executor : ParallelToolExecutor) (registry : ToolRegistry η) (call : Call α) (lane : Lane η α ρ)
    (entry : ToolCallResult ρ) : Prop :=
  entry.name = call.name ∧
    match registry.get call.name with
    | none => lane = {} ∧ entry = unknownTool call.name ∧ entry.success = false
    | some spec => ∃ e, lane = ⟨[⟨call.name, spec.handler, call.args⟩], [(e, entry.durationMs)]⟩ ∧
        entry = executor.resultOf call.name entry.durationMs e ∧
        match e with
        | .result result => entry.success = true ∧ entry.result = result
        | .timeout | .raised _ => entry.success = false

theorem settled_of_ended {call : Call α} {lane : Lane η α ρ} {one : RunOne η α} {i : ℕ} {p : Bool}
    {result : ToolCallResult ρ} (hcall : calls[i]? = some call) (hone : RunsCall registry calls i p one)
    (hlane : lane.At executor one (.ended result)) : Settled executor registry call lane result := by
  obtain ⟨call', spec, hcall', hget, -, rfl⟩ := hone
  obtain rfl := Option.some.inj (hcall.symm.trans hcall')
  obtain ⟨e, durationMs, rfl, rfl⟩ := hlane
  unfold Settled
  rw [hget]
  cases e with
  | result result => exact ⟨rfl, .result result, rfl, rfl, rfl, rfl⟩
  | timeout => exact ⟨rfl, .timeout, rfl, rfl, rfl⟩
  | raised error => exact ⟨rfl, .raised error, rfl, rfl, rfl⟩

/-- **What a batch returns.** -/
theorem settled_of_returned (hbooks : Books executor registry calls s) (hcontrol : Control executor calls s.run)
    {results : List (ToolCallResult ρ)} (hreturned : s.run.returned = some results) :
    results.length = calls.length ∧ ∀ i call, calls[i]? = some call →
      ∃ entry, results[i]? = some entry ∧ Settled executor registry call (s.lanes i) entry := by
  obtain ⟨-, hend, hgathered, rfl⟩ := hcontrol.returned results hreturned
  refine ⟨?_, fun i call hcall => ?_⟩
  · rw [collect_eq, List.length_map, length_foldl_place]
    exact hbooks.results
  have hi := (List.getElem?_eq_some_iff.mp hcall).1
  have hpast : i < s.run.position := lt_of_lt_of_le hi (List.getElem?_eq_none_iff.mp hend)
  -- what is no task has its entry already
  have hkept {entry : ToolCallResult ρ} (hentry : s.run.results[i]? = some (some entry))
      (hno : i ∉ s.run.tasks.map Prod.fst) : s.run.collect[i]? = some entry := by
    rw [collect_eq, List.getElem?_map, foldl_place_of_not_mem hno, hentry]
    rfl
  have htask {k : ℕ} {stage : RunStage ρ} (hk : s.run.tasks[k]? = some (i, stage)) :
      ∃ one, RunsCall registry calls i true one ∧ (s.lanes i).At executor one stage := by
    obtain ⟨-, one, -, hone, hat⟩ := hbooks.tasks k i stage hk
    exact ⟨one, hone, hat⟩
  have hmem (h : i ∈ s.run.tasks.map Prod.fst) : ∃ (k : ℕ) (stage : RunStage ρ), s.run.tasks[k]? = some (i, stage) := by
    obtain ⟨⟨j, stage⟩, hmem, rfl⟩ := List.mem_map.mp h
    obtain ⟨k, hk⟩ := List.mem_iff_getElem?.mp hmem
    exact ⟨k, stage, hk⟩
  cases hbooks.passed i hpast with
  | @unknown call' hcall' hget hresult hlane =>
      obtain rfl := Option.some.inj (hcall.symm.trans hcall')
      refine ⟨unknownTool call.name, hkept hresult fun h => ?_, rfl, ?_⟩
      · obtain ⟨k, stage, hk⟩ := hmem h
        obtain ⟨one, ⟨call', spec, hcall', hget', -⟩, -⟩ := htask hk
        obtain rfl := Option.some.inj (hcall.symm.trans hcall')
        rw [hget] at hget'
        cases hget'
      · rw [hget]
        exact ⟨hlane, rfl, rfl⟩
  | @serial one result hone hresult hlane =>
      refine ⟨result, hkept hresult fun h => ?_, settled_of_ended hcall hone hlane⟩
      obtain ⟨k, stage, hk⟩ := hmem h
      obtain ⟨one', hone', -⟩ := htask hk
      exact Bool.false_ne_true (hone.unique hone').1
  | parallel h =>
      obtain ⟨k, stage, hk⟩ := hmem h
      obtain ⟨one, hone, hat⟩ := htask hk
      have hmem := List.mem_of_getElem? hk
      have hended := List.all_eq_true.mp hgathered _ hmem
      cases stage with
      | start | waiting | inFlight => cases hended
      | ended result =>
          refine ⟨result, ?_, settled_of_ended hcall hone hat⟩
          rw [collect_eq, List.getElem?_map, foldl_place_of_mem hbooks.indices hmem (hbooks.results ▸ hi)]
          rfl

end

end Persola.Tools
