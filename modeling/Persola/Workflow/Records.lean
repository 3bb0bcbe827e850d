import Persola.Workflow.Chain
import Mathlib.Data.List.TakeWhile

/-!
# `Workflow.Records` — what a chain records

However the calls of a group come back, every step calls the LLM once, with a prompt that has the latest output of
each dependency from before its group, and there is one record for each step in order, with the role and the output of
its step. The task is that of the step exactly if the group has no other step of that role with another task.
-/

namespace Persola.Workflow

open Runs

variable {τ : Type} {caller : Caller} {p q : Progress τ} {batch : Batch} {batches : List Batch}
  {events : List (ℕ × Event τ)} {schedule : List (List (ℕ × Event τ))}

/-! ## What is to be recorded -/

/-- The latest output of a role. -/
def latest (records : List (WorkflowStepRecord τ)) (role : String) : Option String :=
  (records.filter (·.role = role)).getLast?.map (·.output)

/-- The prior context of a step: what the dependencies that were produced came up with, in order. -/
def priorContext (records : List (WorkflowStepRecord τ)) (step : DelegationStep) : List String :=
  step.dependsOn.filterMap fun dep => (latest records dep).map fun output => "[" ++ dep ++ "]: " ++ output

/-- The call of a step, when `records` is what earlier steps and groups left. -/
def callOf (caller : Caller) (records : List (WorkflowStepRecord τ)) (place : ℕ) (step : DelegationStep) : LlmCall :=
  ⟨place, caller.systemPromptForRole step.role, promptWith step (priorContext records step)⟩

/-- The step at `place` was served: it called the LLM once, was answered once, and is recorded with the answer. -/
structure ServedAt (caller : Caller) (p : Progress τ) (start place : ℕ) (step : DelegationStep) (task : String) :
    Prop where
  call : p.calls.filter (·.place = place) = [callOf caller (p.state.steps.take start) place step]
  record : ∃ output toolCalls, p.answers.filter (·.1 = place) = [(place, output)] ∧
    p.state.steps[place]? = some ⟨step.role, task, output, toolCalls⟩

/-- How many steps there are in some turns. -/
def count (batches : List Batch) : ℕ := (batches.flatMap (·.steps)).length

/-- **What an execution is to return**: every step of the chain is served, in its place, and recorded with its task. -/
structure Faithful (caller : Caller) (chain : WorkflowChain) (p : Progress τ) : Prop where
  status : p.state.status = "completed"
  length : p.state.steps.length = chain.steps.length
  served : ∀ pre batch post, chain.batches = pre ++ batch :: post → ∀ j step, batch.steps[j]? = some step →
    chain.steps[count pre + j]? = some step ∧ ServedAt caller p (count pre) (count pre + j) step step.task

/-! ## Turns of the loop -/

/-- A step by itself, or consecutive steps with one group. -/
structure Batch.Taken (batch : Batch) : Prop where
  nonempty : batch.steps ≠ []
  alone : batch.grouped = false → ∃ step, batch.steps = [step]
  together : batch.grouped = true → ∃ group ≠ "", ∀ step ∈ batch.steps, step.parallelGroup = some group

theorem nextBatch_eq_none {steps : List DelegationStep} (h : nextBatch steps = none) : steps = [] := by
  cases steps with
  | nil => rfl
  | cons step rest =>
      rw [nextBatch] at h
      split at h <;> cases h

theorem nextBatch_spec {steps rest : List DelegationStep} (h : nextBatch steps = some (batch, rest)) :
    steps = batch.steps ++ rest ∧ batch.Taken := by
  cases steps with
  | nil => cases h
  | cons step steps =>
      rw [nextBatch] at h
      split at h
      · next group hgroup =>
          obtain ⟨rfl, rfl⟩ := Prod.mk.inj (Option.some.inj h)
          obtain ⟨hstep, hne⟩ := Option.filter_eq_some_iff.mp hgroup
          refine ⟨?_, List.cons_ne_nil _ _, fun hfalse => (by cases hfalse), fun _ => ⟨group, by simpa using hne, ?_⟩⟩
          · rw [List.cons_append, List.takeWhile_append_dropWhile]
          · intro s hs
            rcases List.mem_cons.mp hs with rfl | hs
            · exact hstep
            · have hgroup := List.mem_takeWhile_imp hs
              exact of_decide_eq_true hgroup
      · obtain ⟨rfl, rfl⟩ := Prod.mk.inj (Option.some.inj h)
        exact ⟨rfl, List.cons_ne_nil _ _, fun _ => ⟨step, rfl⟩, fun htrue => by cases htrue⟩

theorem batchesFrom_spec {n : ℕ} {steps : List DelegationStep} (hn : steps.length ≤ n) :
    (batchesFrom n steps).flatMap (·.steps) = steps ∧ ∀ batch ∈ batchesFrom n steps, batch.Taken := by
  induction n generalizing steps with
  | zero =>
      obtain rfl := List.length_eq_zero_iff.mp (Nat.le_zero.mp hn)
      exact ⟨rfl, fun batch h => by cases h⟩
  | succ n ih =>
      unfold batchesFrom
      cases hnext : nextBatch steps with
      | none =>
          obtain rfl := nextBatch_eq_none hnext
          exact ⟨rfl, fun batch h => by cases h⟩
      | some next =>
          obtain ⟨batch, rest⟩ := next
          obtain ⟨hsteps, htaken⟩ := nextBatch_spec hnext
          have hshorter : rest.length ≤ n := by
            have hpos := List.length_pos_iff.mpr htaken.nonempty
            rw [hsteps, List.length_append] at hn
            omega
          obtain ⟨hflat, hall⟩ := ih hshorter
          refine ⟨?_, List.forall_mem_cons.mpr ⟨htaken, hall⟩⟩
          rw [List.flatMap_cons, hflat, hsteps]

/-- **The turns of the loop are the steps of the chain**, grouped. -/
theorem WorkflowChain.batches_spec (chain : WorkflowChain) :
    chain.batches.flatMap (·.steps) = chain.steps ∧ ∀ batch ∈ chain.batches, batch.Taken :=
  batchesFrom_spec le_rfl

/-! ## One step alone -/

/-- The events of a step that runs to its end. -/
def script (hasToolRunner : Bool) (output : String) (toolCalls : List τ) : List (Event τ) :=
  if hasToolRunner then [.call, .answer output, .toolCalls toolCalls] else [.call, .answer output]

/-- The events are those of one step that runs to its end. -/
def Served (hasToolRunner : Bool) (events : List (Event τ)) : Prop :=
  ∃ output toolCalls, events = script hasToolRunner output toolCalls

/-- What a step returns after such events. -/
def resultOf : List (Event τ) → String × List τ
  | [.call, .answer output, .toolCalls toolCalls] => (output, toolCalls)
  | [.call, .answer output] => (output, [])
  | _ => ("", [])

theorem exec_runOne {hasToolRunner : Bool} {events : List (Event τ)} (h : Served hasToolRunner events) :
    (runOne hasToolRunner).exec .ready events = some (.returned (resultOf events).1 (resultOf events).2) := by
  obtain ⟨output, toolCalls, rfl⟩ := h
  cases hasToolRunner <;> rfl

/-! ## One turn -/

/-- The events are those of a whole turn: every step runs to its end, in whatever order. -/
structure WholeTurn (caller : Caller) (batch : Batch) (events : List (ℕ × Event τ)) : Prop where
  inside : ∀ e ∈ events, e.1 < batch.steps.length
  served : ∀ j < batch.steps.length, Served caller.hasToolRunner (Gather.own j events)

/-- What the steps of a turn return, in the order of the steps. -/
def resultsOf (batch : Batch) (events : List (ℕ × Event τ)) : List (String × List τ) :=
  (List.range batch.steps.length).map fun j => resultOf (Gather.own j events)

theorem gathered_map_returned (results : List (String × List τ)) :
    gathered (results.map fun r => .returned r.1 r.2) = some results := by
  induction results with
  | nil => rfl
  | cons r results ih => rw [List.map_cons, gathered, ih, Option.map_some]

/-- **However the calls come back, the results come in the order of the steps.** -/
theorem runBatch_eq (h : WholeTurn caller batch events) : runBatch caller p batch events =
    some { collect batch p (resultsOf batch events) with
      i := p.i + batch.steps.length
      calls := p.calls ++ llmCalls caller p batch events
      answers := p.answers ++ llmAnswers p events } := by
  have hexec : (Gather.system (runOne caller.hasToolRunner)).exec (batch.steps.map fun _ => .ready) events =
      some ((resultsOf batch events).map fun r => .returned r.1 r.2) := by
    refine Gather.exec_iff.mpr ⟨by simp [resultsOf], fun e he => ?_, fun j stage hj => ?_⟩
    · rw [List.length_map]
      exact h.inside e he
    · obtain ⟨hlt, hready⟩ := List.getElem?_eq_some_iff.mp hj
      rw [List.length_map] at hlt
      rw [List.getElem_map] at hready
      rw [← hready, exec_runOne (h.served j hlt)]
      simp [resultsOf, hlt]
  unfold runBatch
  rw [hexec]
  simp only [Option.bind_eq_bind, Option.bind_some, gathered_map_returned]
  rfl

/-- The records of a turn. -/
def recordsOf (batch : Batch) (results : List (String × List τ)) : List (WorkflowStepRecord τ) :=
  (batch.steps.zip results).map fun sr => ⟨sr.1.role, batch.matchingTask sr.1, sr.2.1, sr.2.2⟩

/-- What the loop over the results does: it adds their records, and completes their roles in order. -/
theorem collect_spec (batch : Batch) (p : Progress τ) (results : List (String × List τ)) :
    (collect batch p results).state.steps = p.state.steps ++ recordsOf batch results ∧
      (collect batch p results).completed =
        Py.assign p.completed ((batch.steps.zip results).map fun sr => (sr.1.role, sr.2.1)) := by
  unfold collect recordsOf Py.assign
  generalize batch.steps.zip results = pairs
  induction pairs generalizing p with
  | nil => exact ⟨(List.append_nil _).symm, rfl⟩
  | cons sr pairs ih =>
      rw [List.foldl_cons, List.map_cons, List.map_cons, List.foldl_cons]
      obtain ⟨hsteps, hcompleted⟩ := ih { p with
        state := p.state.addStep sr.1.role (batch.matchingTask sr.1) sr.2.1 sr.2.2
        completed := Py.setItem p.completed sr.1.role sr.2.1 }
      refine ⟨hsteps.trans ?_, hcompleted⟩
      exact List.append_assoc _ [_] _

/-- A dictionary of the latest outputs stays one. -/
theorem getItem_latest {completed : List (String × String)} {records : List (WorkflowStepRecord τ)}
    (h : ∀ role, Py.getItem completed role = latest records role) (results : List (String × List τ)) (role : String) :
    Py.getItem (Py.assign completed ((batch.steps.zip results).map fun sr => (sr.1.role, sr.2.1))) role =
      latest (records ++ recordsOf batch results) role := by
  have hnew : (((batch.steps.zip results).map fun sr => (sr.1.role, sr.2.1)).filter (·.1 = role)).map Prod.snd =
      ((recordsOf batch results).filter (·.role = role)).map (·.output) := by
    unfold recordsOf
    rw [List.filter_map, List.filter_map, List.map_map, List.map_map]
    rfl
  rw [Py.getItem_assign, h]
  unfold latest
  rw [List.filter_append, List.getLast?_append, ← List.getLast?_map, hnew, List.getLast?_map]
  cases ((recordsOf batch results).filter (·.role = role)).getLast? <;> rfl

/-! ## The log of a turn -/

section
variable {j : ℕ} {step : DelegationStep}

/-- The calls of one step. -/
theorem filter_llmCalls (hstep : batch.steps[j]? = some step) :
    (llmCalls caller p batch events).filter (·.place = p.i + j) = (Gather.own j events).filterMap fun
      | .call => some ⟨p.i + j, caller.systemPromptForRole step.role,
          promptWith step (contextBits p.completed step)⟩
      | _ => none := by
  unfold llmCalls
  induction events with
  | nil => rfl
  | cons e events ih =>
      obtain ⟨k, e⟩ := e
      rw [Gather.own_cons, List.filterMap_cons]
      by_cases hk : k = j
      · subst hk
        rw [if_pos rfl, List.filterMap_cons]
        cases e with
        | call =>
            simp only [hstep, Option.map_some]
            rw [List.filter_cons, if_pos (decide_eq_true rfl), ih]
        | answer output => exact ih
        | toolCalls calls => exact ih
      · rw [if_neg hk, ← ih]
        cases e with
        | call =>
            cases hother : batch.steps[k]? with
            | none => simp only [hother, Option.map_none]
            | some other =>
                simp only [hother, Option.map_some]
                rw [List.filter_cons, if_neg]
                simpa using hk
        | answer output => rfl
        | toolCalls calls => rfl

/-- The answers to one step. -/
theorem filter_llmAnswers (p : Progress τ) (events : List (ℕ × Event τ)) (j : ℕ) :
    (llmAnswers p events).filter (·.1 = p.i + j) = (Gather.own j events).filterMap fun
      | .answer output => some (p.i + j, output)
      | _ => none := by
  unfold llmAnswers
  induction events with
  | nil => rfl
  | cons e events ih =>
      obtain ⟨k, e⟩ := e
      rw [Gather.own_cons, List.filterMap_cons]
      by_cases hk : k = j
      · subst hk
        rw [if_pos rfl, List.filterMap_cons]
        cases e with
        | call => exact ih
        | answer output =>
            dsimp only
            rw [List.filter_cons, if_pos (decide_eq_true rfl), ih]
        | toolCalls calls => exact ih
      · rw [if_neg hk, ← ih]
        cases e with
        | call => rfl
        | answer output =>
            dsimp only
            rw [List.filter_cons, if_neg]
            simpa using hk
        | toolCalls calls => rfl

/-- A turn makes calls for its own steps only. -/
theorem mem_llmCalls {c : LlmCall} (hc : c ∈ llmCalls caller p batch events) :
    p.i ≤ c.place ∧ c.place < p.i + batch.steps.length := by
  obtain ⟨⟨k, e⟩, -, hcall⟩ := List.mem_filterMap.mp hc
  cases e with
  | call =>
      obtain ⟨step, hstep, rfl⟩ := Option.map_eq_some_iff.mp hcall
      have hk := (List.getElem?_eq_some_iff.mp hstep).1
      exact ⟨Nat.le_add_right _ _, Nat.add_lt_add_left hk _⟩
  | answer output => cases hcall
  | toolCalls calls => cases hcall

theorem mem_llmAnswers (h : ∀ e ∈ events, e.1 < batch.steps.length) {a : ℕ × String} (ha : a ∈ llmAnswers p events) :
    p.i ≤ a.1 ∧ a.1 < p.i + batch.steps.length := by
  obtain ⟨⟨k, e⟩, hk, hanswer⟩ := List.mem_filterMap.mp ha
  cases e with
  | call => cases hanswer
  | answer output =>
      obtain rfl := Option.some.inj hanswer
      exact ⟨Nat.le_add_right _ _, Nat.add_lt_add_left (h _ hk) _⟩
  | toolCalls calls => cases hanswer

end

/-! ## The loop -/

theorem count_append (before after : List Batch) : count (before ++ after) = count before + count after := by
  unfold count
  rw [List.flatMap_append, List.length_append]

theorem count_singleton (batch : Batch) : count [batch] = batch.steps.length := by
  unfold count
  rw [List.flatMap_singleton]

/-- What holds after the turns `done`. -/
structure Inv (caller : Caller) (done : List Batch) (p : Progress τ) : Prop where
  place : p.i = count done
  length : p.state.steps.length = count done
  completed : ∀ role, Py.getItem p.completed role = latest p.state.steps role
  calls : ∀ c ∈ p.calls, c.place < count done
  answers : ∀ a ∈ p.answers, a.1 < count done
  served : ∀ pre batch post, done = pre ++ batch :: post → ∀ j step, batch.steps[j]? = some step →
    ServedAt caller p (count pre) (count pre + j) step (batch.matchingTask step)

theorem inv_init (caller : Caller) (goal : String) : Inv caller [] ({ state := { goal := goal } } : Progress τ) where
  place := rfl
  length := rfl
  completed _ := rfl
  calls _ h := by cases h
  answers _ h := by cases h
  served pre batch post h := by
    have hlength := congrArg List.length h
    rw [List.length_append, List.length_cons, List.length_nil] at hlength
    omega

/-- The context of a step comes from the records. -/
theorem Inv.contextBits {done : List Batch} (hi : Inv caller done p) (step : DelegationStep) :
    contextBits p.completed step = priorContext p.state.steps step := by
  unfold Workflow.contextBits priorContext
  simp only [hi.completed]

/-- What was served stays served when later turns add to the log and to the records. -/
theorem ServedAt.later {start place : ℕ} {step : DelegationStep} {task : String} {calls : List LlmCall}
    {answers : List (ℕ × String)} {records : List (WorkflowStepRecord τ)}
    (h : ServedAt caller p start place step task) (hstart : start ≤ place) (hplace : place < p.state.steps.length)
    (hcalls : ∀ c ∈ calls, c.place ≠ place) (hanswers : ∀ a ∈ answers, a.1 ≠ place)
    (hq : q.calls = p.calls ++ calls ∧ q.answers = p.answers ++ answers ∧
      q.state.steps = p.state.steps ++ records) : ServedAt caller q start place step task := by
  obtain ⟨hqcalls, hqanswers, hqsteps⟩ := hq
  have hnone : calls.filter (·.place = place) = [] := List.filter_eq_nil_iff.mpr (by simpa using hcalls)
  have hnone' : answers.filter (·.1 = place) = [] := List.filter_eq_nil_iff.mpr (by simpa using hanswers)
  constructor
  · rw [hqcalls, hqsteps, List.filter_append, hnone, List.append_nil,
      List.take_append_of_le_length (hstart.trans hplace.le)]
    exact h.call
  · obtain ⟨output, toolCalls, hanswer, hrecord⟩ := h.record
    refine ⟨output, toolCalls, ?_, ?_⟩
    · rw [hqanswers, List.filter_append, hnone', List.append_nil, hanswer]
    · rw [hqsteps, List.getElem?_append_left hplace, hrecord]

/-- The steps of a turn are served by it. -/
theorem Inv.servedNow {done : List Batch} (hi : Inv caller done p) (h : WholeTurn caller batch events) {j : ℕ}
    {step : DelegationStep} (hstep : batch.steps[j]? = some step)
    (hq : q.calls = p.calls ++ llmCalls caller p batch events ∧ q.answers = p.answers ++ llmAnswers p events ∧
      q.state.steps = p.state.steps ++ recordsOf batch (resultsOf batch events)) :
    ServedAt caller q (count done) (count done + j) step (batch.matchingTask step) := by
  obtain ⟨hqcalls, hqanswers, hqsteps⟩ := hq
  obtain ⟨hj, hget⟩ := List.getElem?_eq_some_iff.mp hstep
  obtain ⟨output, toolCalls, hscript⟩ := h.served j hj
  have hnone : p.calls.filter (·.place = count done + j) = [] :=
    List.filter_eq_nil_iff.mpr fun c hc => by have := hi.calls c hc; simp; omega
  have hnone' : p.answers.filter (·.1 = count done + j) = [] :=
    List.filter_eq_nil_iff.mpr fun a ha => by have := hi.answers a ha; simp; omega
  constructor
  · rw [hqcalls, hqsteps, List.filter_append, hnone, List.nil_append, List.take_append_of_le_length hi.length.ge,
      List.take_of_length_le hi.length.le, ← hi.place, filter_llmCalls hstep, hscript, hi.contextBits]
    cases caller.hasToolRunner <;> rfl
  · refine ⟨output, (resultOf (script caller.hasToolRunner output toolCalls)).2, ?_, ?_⟩
    · rw [hqanswers, List.filter_append, hnone', List.nil_append, ← hi.place, filter_llmAnswers, hscript]
      cases caller.hasToolRunner <;> rfl
    · have houtput : (resultOf (script caller.hasToolRunner output toolCalls)).1 = output := by
        cases caller.hasToolRunner <;> rfl
      rw [hqsteps, ← hi.length, List.getElem?_append_right (Nat.le_add_right _ _), Nat.add_sub_cancel_left]
      simp [recordsOf, resultsOf, hj, hget, hscript, houtput]

/-- **Step lemma**: a turn serves its steps and leaves what was served before. -/
theorem Inv.step {done : List Batch} (hi : Inv caller done p) (h : WholeTurn caller batch events) :
    ∃ q, runBatch caller p batch events = some q ∧ Inv caller (done ++ [batch]) q := by
  obtain ⟨hsteps, hcompleted⟩ := collect_spec batch p (resultsOf batch events)
  refine ⟨_, runBatch_eq h, ?_⟩
  have hcount : count (done ++ [batch]) = count done + batch.steps.length := by
    rw [count_append, count_singleton]
  refine ⟨?_, ?_, ?_, ?_, ?_, ?_⟩
  · rw [hcount, ← hi.place]
  · dsimp only
    rw [hsteps, List.length_append, hi.length, hcount]
    simp [recordsOf, resultsOf]
  · intro role
    dsimp only
    rw [hcompleted, hsteps]
    exact getItem_latest hi.completed _ role
  · intro c hc
    rw [hcount]
    rcases List.mem_append.mp hc with hc | hc
    · exact (hi.calls c hc).trans_le (Nat.le_add_right _ _)
    · exact hi.place ▸ (mem_llmCalls hc).2
  · intro a ha
    rw [hcount]
    rcases List.mem_append.mp ha with ha | ha
    · exact (hi.answers a ha).trans_le (Nat.le_add_right _ _)
    · exact hi.place ▸ (mem_llmAnswers h.inside ha).2
  · intro pre served post hdone j step hstep
    rcases List.eq_nil_or_concat post with rfl | ⟨post, last, rfl⟩
    · -- the turn itself
      obtain ⟨rfl, hlast⟩ := List.append_inj' hdone rfl
      obtain rfl := List.head_eq_of_cons_eq hlast
      exact hi.servedNow h hstep ⟨rfl, rfl, hsteps⟩
    · -- an earlier one
      have hlast : done ++ [batch] = (pre ++ served :: post) ++ [last] := by
        rw [hdone, List.concat_eq_append, List.append_assoc, List.cons_append]
      obtain ⟨rfl, -⟩ := List.append_inj' hlast rfl
      have hj := (List.getElem?_eq_some_iff.mp hstep).1
      have hplace : count pre + j < count (pre ++ served :: post) := by
        rw [count_append, ← List.singleton_append, count_append, count_singleton]
        omega
      refine (hi.served pre served post rfl j step hstep).later (Nat.le_add_right _ _) (hi.length ▸ hplace) ?_ ?_
        ⟨rfl, rfl, hsteps⟩
      · intro c hc heq
        have := (mem_llmCalls hc).1
        rw [hi.place] at this
        omega
      · intro a ha heq
        have := (mem_llmAnswers h.inside ha).1
        rw [hi.place] at this
        omega

/-- **Run lemma**: the loop comes to its end, and has served every step. -/
theorem Inv.run {done : List Batch} (hi : Inv caller done p) (h : List.Forall₂ (WholeTurn caller) batches schedule) :
    ∃ q, runBatches caller p batches schedule = some q ∧ Inv caller (done ++ batches) q := by
  induction h generalizing done p with
  | nil => exact ⟨p, rfl, by rwa [List.append_nil]⟩
  | cons hturn _ ih =>
      obtain ⟨p', hp', hi'⟩ := hi.step hturn
      obtain ⟨q, hq, hinv⟩ := ih hi'
      refine ⟨q, ?_, ?_⟩
      · rw [runBatches, hp']
        exact hq
      · rwa [List.append_assoc, List.singleton_append] at hinv

/-! ## The recorded tasks -/

/-- The recorded task is that of a step of the batch with the same role. -/
theorem Batch.exists_matchingTask {step : DelegationStep} (hstep : step ∈ batch.steps) :
    ∃ s ∈ batch.steps, s.role = step.role ∧ batch.matchingTask step = s.task := by
  unfold Batch.matchingTask
  cases hgrouped : batch.grouped with
  | false => exact ⟨step, hstep, rfl, rfl⟩
  | true =>
      rw [if_pos rfl]
      cases hfind : batch.steps.find? (·.role = step.role) with
      | none => exact absurd (decide_eq_true rfl) (List.find?_eq_none.mp hfind step hstep)
      | some s => exact ⟨s, List.mem_of_find?_eq_some hfind, by simpa using List.find?_some hfind, rfl⟩

/-- Steps of one role are recorded with one task. -/
theorem Batch.Taken.matchingTask_congr (htaken : batch.Taken) {s s' : DelegationStep} (hs : s ∈ batch.steps)
    (hs' : s' ∈ batch.steps) (hrole : s.role = s'.role) : batch.matchingTask s = batch.matchingTask s' := by
  cases hgrouped : batch.grouped with
  | false =>
      obtain ⟨step, hstep⟩ := htaken.alone hgrouped
      rw [hstep] at hs hs'
      rw [List.mem_singleton.mp hs, List.mem_singleton.mp hs']
  | true =>
      have hfind : (batch.steps.find? (·.role = s.role)).isSome :=
        List.find?_isSome.mpr ⟨s, hs, decide_eq_true rfl⟩
      obtain ⟨first, hfirst⟩ := Option.isSome_iff_exists.mp hfind
      unfold Batch.matchingTask
      rw [hgrouped, if_pos rfl, if_pos rfl, ← hrole, hfirst]
      rfl

/-- Every step is recorded with its own task exactly if steps of one role have one task. -/
theorem Batch.Taken.ownTasks_iff (htaken : batch.Taken) :
    (∀ step ∈ batch.steps, batch.matchingTask step = step.task) ↔
      ∀ s ∈ batch.steps, ∀ s' ∈ batch.steps, s.role = s'.role → s.task = s'.task := by
  constructor
  · intro h s hs s' hs' hrole
    rw [← h s hs, ← h s' hs', htaken.matchingTask_congr hs hs' hrole]
  · intro h step hstep
    obtain ⟨s, hs, hrole, htask⟩ := batch.exists_matchingTask hstep
    rw [htask, h s hs step hstep hrole]

/-- The turns of a chain keep the places of its steps. -/
theorem getElem?_chain {chain : WorkflowChain} {pre post : List Batch} (h : chain.batches = pre ++ batch :: post)
    {j : ℕ} {step : DelegationStep} (hstep : batch.steps[j]? = some step) :
    chain.steps[count pre + j]? = some step := by
  have hj := (List.getElem?_eq_some_iff.mp hstep).1
  rw [← chain.batches_spec.1, h, List.flatMap_append, List.flatMap_cons, count,
    List.getElem?_append_right (Nat.le_add_right _ _), Nat.add_sub_cancel_left, List.getElem?_append_left hj, hstep]

/-- **Chains are executed faithfully exactly if the steps of one role in a group have one task.** Every chain is
executed to its end, in whatever order the calls of a group come back. -/
theorem executeWorkflowChainParallel_faithful_iff (caller : Caller) (chain : WorkflowChain)
    (schedule : List (List (ℕ × Event τ))) (h : List.Forall₂ (WholeTurn caller) chain.batches schedule) :
    ∃ p, executeWorkflowChainParallel caller chain schedule = some p ∧ (Faithful caller chain p ↔
      ∀ batch ∈ chain.batches, ∀ s ∈ batch.steps, ∀ s' ∈ batch.steps, s.role = s'.role → s.task = s'.task) := by
  obtain ⟨p, hp, hi⟩ := (inv_init caller chain.goal).run h
  rw [List.nil_append] at hi
  refine ⟨_, Option.map_eq_some_iff.mpr ⟨p, hp, rfl⟩, ?_⟩
  have htasks : (∀ batch ∈ chain.batches, ∀ step ∈ batch.steps, batch.matchingTask step = step.task) ↔
      ∀ batch ∈ chain.batches, ∀ s ∈ batch.steps, ∀ s' ∈ batch.steps, s.role = s'.role → s.task = s'.task :=
    forall₂_congr fun batch hbatch => (chain.batches_spec.2 batch hbatch).ownTasks_iff
  rw [← htasks]
  constructor
  · intro hf batch hbatch step hstep
    obtain ⟨pre, post, hsplit⟩ := List.append_of_mem hbatch
    obtain ⟨j, hj⟩ := List.mem_iff_getElem?.mp hstep
    -- there is one record at the place of a step
    obtain ⟨_, _, -, hrecord⟩ := (hf.served pre batch post hsplit j step hj).2.record
    obtain ⟨_, _, -, hrecorded⟩ := (hi.served pre batch post hsplit j step hj).record
    have hsame := Option.some.inj (hrecorded.symm.trans hrecord)
    exact congrArg WorkflowStepRecord.task hsame
  · intro hown
    refine ⟨rfl, ?_, fun pre batch post hsplit j step hj => ⟨getElem?_chain hsplit hj, ?_⟩⟩
    · rw [← chain.batches_spec.1]
      exact hi.length
    · have hbatch : batch ∈ chain.batches := hsplit ▸ List.mem_append_right _ List.mem_cons_self
      have hserved := hi.served pre batch post hsplit j step hj
      rw [hown batch hbatch step (List.mem_of_getElem? hj)] at hserved
      exact ⟨hserved.call, hserved.record⟩

/-! ## Two chains -/

/-- A caller without tools. -/
def plainCaller : Caller := { systemPromptForRole := fun role => "You are the " ++ role, hasToolRunner := false }

/-- Two roles side by side, and one that reads both. -/
def reviewChain : WorkflowChain where
  goal := "review"
  steps := [⟨"reader", "read", [], some "front"⟩, ⟨"tester", "test", [], some "front"⟩,
    ⟨"writer", "write", ["reader", "tester"], none⟩]

/-- The tester is done before the reader. -/
def reviewSchedule : List (List (ℕ × Event Unit)) :=
  [[(0, .call), (1, .call), (1, .answer "passes"), (0, .answer "is short")],
    [(0, .call), (0, .answer "fine")]]

theorem executeWorkflowChainParallel_review :
    ∃ p, executeWorkflowChainParallel plainCaller reviewChain reviewSchedule = some p ∧
      Faithful plainCaller reviewChain p := by
  have hbatches : reviewChain.batches =
      [⟨reviewChain.steps.take 2, true⟩, ⟨reviewChain.steps.drop 2, false⟩] := by decide
  have hfront : WholeTurn plainCaller ⟨reviewChain.steps.take 2, true⟩
      [(0, .call), (1, .call), (1, .answer "passes"), (0, .answer "is short")] :=
    ⟨by simp [reviewChain], fun
      | 0, _ => ⟨"is short", ([] : List Unit), rfl⟩
      | 1, _ => ⟨"passes", [], rfl⟩⟩
  have hwriter : WholeTurn plainCaller ⟨reviewChain.steps.drop 2, false⟩ [(0, .call), (0, .answer "fine")] :=
    ⟨by simp [reviewChain], fun
      | 0, _ => ⟨"fine", ([] : List Unit), rfl⟩⟩
  obtain ⟨p, hp, hiff⟩ := executeWorkflowChainParallel_faithful_iff plainCaller reviewChain reviewSchedule
    (hbatches ▸ .cons hfront (.cons hwriter .nil))
  exact ⟨p, hp, hiff.mpr (by decide)⟩

/-- A group with two analysts. -/
def analystChain : WorkflowChain where
  goal := "analyse"
  steps := [⟨"analyst", "read the code", [], some "pair"⟩, ⟨"analyst", "read the tests", [], some "pair"⟩]

def analystSchedule : List (List (ℕ × Event Unit)) :=
  [[(0, .call), (1, .call), (0, .answer "short"), (1, .answer "long")]]

theorem executeWorkflowChainParallel_analysts :
    List.Forall₂ (WholeTurn plainCaller) analystChain.batches analystSchedule ∧
      ∃ p, executeWorkflowChainParallel plainCaller analystChain analystSchedule = some p ∧
        p.state.steps.map (·.task) = ["read the code", "read the code"] ∧ ¬ Faithful plainCaller analystChain p := by
  have hbatches : analystChain.batches = [⟨analystChain.steps, true⟩] := by decide
  have hpair : WholeTurn plainCaller ⟨analystChain.steps, true⟩
      [(0, .call), (1, .call), (0, .answer "short"), (1, .answer "long")] :=
    ⟨by simp [analystChain], fun
      | 0, _ => ⟨"short", ([] : List Unit), rfl⟩
      | 1, _ => ⟨"long", [], rfl⟩⟩
  refine ⟨hbatches ▸ .cons hpair .nil, _, rfl, rfl, fun hfaithful => ?_⟩
  obtain ⟨-, hserved⟩ := hfaithful.served [] ⟨analystChain.steps, true⟩ [] hbatches 1 _ rfl
  obtain ⟨_, _, -, hrecord⟩ := hserved.record
  have htask : some "read the code" = some "read the tests" :=
    congrArg (Option.map WorkflowStepRecord.task) hrecord
  exact absurd htask (by decide)

end Persola.Workflow
