import Persola.Team.Orchestrator

/-!
# `Team.Story` — what is told of the work of a team

However the answers come and whatever other runs do, a run that returns has asked each specialist of its plan once, and
then the coordinator once about all their answers; and the workflow, the reply, the session and the audit log all tell
the same of it. A run that has not returned, or never will, is known in the audit log by its instruction and decisions,
never by a reply (`timeline_told`).
-/

namespace Persola.Team

open Runs
open Workflow (Stage Event runOne gathered LlmCall DelegationStep Batch Progress WholeTurn Served script
  executeWorkflowChainParallel)
open Workqueue.Ticks (AuditEventType truncate)

variable {τ : Type} {lower : String → String} {inv : Invocation τ}

/-! ## Whole turns -/

/-- What has returned was served. -/
theorem served_of_exec {hasToolRunner : Bool} {events : List (Event τ)} {output : String} {toolCalls : List τ}
    (h : (runOne hasToolRunner).exec .ready events = some (.returned output toolCalls)) :
    Served hasToolRunner events := by
  have hover {o : String} {t : List τ} {events : List (Event τ)}
      (h : (runOne hasToolRunner).exec (.returned o t) events = some (.returned output toolCalls)) :
      events = [] := by
    cases events with
    | nil => rfl
    | cons e events => cases e <;> cases h
  cases events with
  | nil => cases h
  | cons e events =>
      cases e with
      | answer o => cases h
      | toolCalls c => cases h
      | call =>
          cases events with
          | nil => cases h
          | cons e events =>
              cases e with
              | call => cases h
              | toolCalls c => cases h
              | answer o =>
                  cases hasToolRunner with
                  | false =>
                      obtain rfl := hover h
                      exact ⟨o, [], rfl⟩
                  | true =>
                      cases events with
                      | nil => cases h
                      | cons e events =>
                          cases e with
                          | call => cases h
                          | answer o => cases h
                          | toolCalls c =>
                              obtain rfl := hover h
                              exact ⟨o, c, rfl⟩

theorem gathered_eq_some {stages : List (Stage τ)} {results : List (String × List τ)}
    (h : gathered stages = some results) : stages = results.map fun r => .returned r.1 r.2 := by
  induction stages generalizing results with
  | nil =>
      obtain rfl := Option.some.inj h
      rfl
  | cons stage stages ih =>
      cases stage with
      | returned output toolCalls =>
          obtain ⟨rest, hrest, rfl⟩ := Option.map_eq_some_iff.mp h
          rw [List.map_cons, ← ih hrest]
      | ready => cases h
      | asking => cases h
      | usingTools output => cases h

/-- **What was gathered was a whole turn.** -/
theorem wholeTurn_of_gathered {caller : Workflow.Caller} {batch : Batch} {events : List (ℕ × Event τ)}
    {stages : List (Stage τ)} {results : List (String × List τ)}
    (hexec : (Gather.system (runOne caller.hasToolRunner)).exec (batch.steps.map fun _ => .ready) events = some stages)
    (hgathered : gathered stages = some results) : WholeTurn caller batch events := by
  obtain ⟨hlength, hinside, hown⟩ := Gather.exec_iff.mp hexec
  rw [List.length_map] at hlength hinside
  refine ⟨hinside, fun j hj => ?_⟩
  have hready : (batch.steps.map fun _ => (Stage.ready : Stage τ))[j]? = some .ready := by
    rw [List.getElem?_map, List.getElem?_eq_getElem hj, Option.map_some]
  have halone := hown j _ hready
  have hj' : j < stages.length := hlength ▸ hj
  rw [gathered_eq_some hgathered, List.length_map] at hj'
  rw [gathered_eq_some hgathered, List.getElem?_map, List.getElem?_eq_getElem hj', Option.map_some] at halone
  exact served_of_exec halone

theorem wholeTurn_of_runBatch {caller : Workflow.Caller} {p q : Progress τ} {batch : Batch}
    {events : List (ℕ × Event τ)} (h : Workflow.runBatch caller p batch events = some q) :
    WholeTurn caller batch events := by
  unfold Workflow.runBatch at h
  obtain ⟨stages, hexec, h⟩ := Option.bind_eq_some_iff.mp h
  obtain ⟨results, hgathered, -⟩ := Option.bind_eq_some_iff.mp h
  exact wholeTurn_of_gathered hexec hgathered

/-- A loop that came to its end went by whole turns. -/
theorem wholeTurns_of_runBatches {caller : Workflow.Caller} {batches : List Batch} {p q : Progress τ}
    {schedule : List (List (ℕ × Event τ))} (h : Workflow.runBatches caller p batches schedule = some q) :
    List.Forall₂ (WholeTurn caller) batches schedule := by
  induction batches generalizing p schedule with
  | nil =>
      cases schedule with
      | nil => exact .nil
      | cons events schedule => cases h
  | cons batch batches ih =>
      cases schedule with
      | nil => cases h
      | cons events schedule =>
          obtain ⟨p', hbatch, hrest⟩ := Option.bind_eq_some_iff.mp h
          exact .cons (wholeTurn_of_runBatch hbatch) (ih hrest)

/-! ## Who answered -/

/-- Each of the first `n` places has one entry. -/
theorem places_perm {α : Type} {l : List (ℕ × α)} {n : ℕ} (hinside : ∀ a ∈ l, a.1 < n)
    (hone : ∀ j < n, ∃ x, l.filter (·.1 = j) = [(j, x)]) : (l.map Prod.fst).Perm (List.range n) := by
  rw [List.perm_iff_count]
  intro j
  by_cases hj : j < n
  · obtain ⟨x, hx⟩ := hone j hj
    have hcount : (l.map Prod.fst).count j = (l.filter (·.1 = j)).length := by
      rw [List.count_eq_length_filter, List.filter_map, List.length_map]
      congr 2
    rw [hcount, hx, List.count_eq_one_of_mem List.nodup_range (List.mem_range.mpr hj)]
    rfl
  · rw [List.count_eq_zero_of_not_mem, List.count_eq_zero_of_not_mem]
    · rwa [List.mem_range]
    · intro hmem
      obtain ⟨a, ha, rfl⟩ := List.mem_map.mp hmem
      exact hj (hinside a ha)

theorem filterMap_range {α : Type} (l : List α) : (List.range l.length).filterMap (fun j => l[j]?) = l := by
  induction l with
  | nil => rfl
  | cons a l ih =>
      rw [List.length_cons, List.range_succ_eq_map, List.filterMap_cons, List.getElem?_cons_zero, List.filterMap_map]
      exact congrArg _ ih

/-- What the specialists answered, in the order of the answers. -/
def heard (roles : List PersonalityRole) (answers : List (ℕ × String)) : List WorkflowStepRecord :=
  answers.filterMap fun a => (roles[a.1]?).map fun role => ⟨role, a.2⟩

theorem roles_heard {roles : List PersonalityRole} {answers : List (ℕ × String)}
    (h : (answers.map Prod.fst).Perm (List.range roles.length)) : ((heard roles answers).map (·.role)).Perm roles := by
  have hroles : (heard roles answers).map (·.role) = (answers.map Prod.fst).filterMap fun j => roles[j]? := by
    unfold heard
    rw [List.map_filterMap, List.filterMap_map]
    congr 1
    funext a
    cases hrole : roles[a.1]? <;> simp [hrole]
  have hperm := h.filterMap fun j => roles[j]?
  rwa [filterMap_range, ← hroles] at hperm

theorem outputsOf_eq (roles : List PersonalityRole) (events : List (ℕ × Event τ)) (goal : String) :
    outputsOf roles events = (heard roles (Workflow.llmAnswers ({ state := { goal := goal } } : Progress τ) events)).map
      fun step => (step.role.value, step.output) := by
  induction events with
  | nil => rfl
  | cons e events ih =>
      obtain ⟨j, e⟩ := e
      cases e with
      | call => exact ih
      | toolCalls calls => exact ih
      | answer output =>
          unfold outputsOf Workflow.llmAnswers heard at ih ⊢
          rw [List.filterMap_cons, List.filterMap_cons]
          dsimp only
          rw [List.filterMap_cons, Nat.zero_add]
          cases roles[j]? with
          | none => exact ih
          | some role => exact congrArg _ ih

theorem value_injective : Function.Injective PersonalityRole.value := by
  intro a b h
  cases a <;> cases b <;> first | rfl | exact absurd h (by decide)

/-- In a whole turn each step asks once and is answered once. -/
theorem asked_once {caller : Workflow.Caller} {p : Progress τ} {batch : Batch} {events : List (ℕ × Event τ)}
    (hturn : WholeTurn caller batch events) {j : ℕ} {step : DelegationStep} (hstep : batch.steps[j]? = some step) :
    (Workflow.llmCalls caller p batch events).filter (·.place = p.i + j) =
        [⟨p.i + j, caller.systemPromptForRole step.role,
          Workflow.promptWith step (Workflow.contextBits p.completed step)⟩] ∧
      ∃ output, (Workflow.llmAnswers p events).filter (·.1 = p.i + j) = [(p.i + j, output)] := by
  obtain ⟨output, toolCalls, hscript⟩ := hturn.served j (List.getElem?_eq_some_iff.mp hstep).1
  rw [Workflow.filter_llmCalls hstep, Workflow.filter_llmAnswers, hscript]
  cases caller.hasToolRunner <;> exact ⟨rfl, output, rfl⟩

/-! ## The plan -/

theorem plan_ne_nil : inv.plan lower ≠ [] := by
  unfold Invocation.plan selectDelegationPlan
  dsimp only
  split
  · exact List.cons_ne_nil _ _
  · assumption

theorem plan_nodup : (inv.plan lower).Nodup := by
  unfold Invocation.plan
  exact (selectDelegationPlan_spec (score lower inv.task)).1

theorem coordinator_notMem_plan : .coordinator ∉ inv.plan lower := by
  unfold Invocation.plan
  exact (selectDelegationPlan_spec (score lower inv.task)).2

/-- A workflow of the specialists of the plan. -/
theorem exists_workflow {specialists : List WorkflowStepRecord}
    (h : (specialists.map (·.role)).Perm (inv.plan lower)) (output : String) :
    ∃ w : WorkflowState, w.specialists = specialists ∧ w.coordinatorOutput = output := by
  unfold Invocation.plan at h
  exact ⟨.ofPlan h output, rfl, rfl⟩

/-! ## What the work amounts to -/

/-- What a specialist is asked. -/
def Invocation.question (inv : Invocation τ) (role : PersonalityRole) : String :=
  "As " ++ (if inv.useLanggraph then role.value else role.archetype.name) ++ ", contribute your perspective on: " ++
    inv.task

/-- What the coordinator is asked when the specialists have said this. -/
def Invocation.synthesis (inv : Invocation τ) (outputs : List (String × String)) : String :=
  if inv.useLanggraph then graphSynthesis inv.task outputs
  else "Synthesize the team's work into one cohesive answer for the user.\n\nUser task: " ++ inv.task ++
    "\n\nPrior context:\n" ++ "\n".intercalate (outputs.map fun e => "[" ++ e.1 ++ "]: " ++ e.2)

/-- What a step tells. -/
def WorkflowStepRecord.told (step : WorkflowStepRecord) : String × String := (step.role.value, step.output)

/-- What is recorded of a workflow after its instruction. -/
def WorkflowState.entries (w : WorkflowState) : List Entry :=
  w.specialists.map (fun step => decision step.role.value step.output) ++
    [reply PersonalityRole.coordinator.value w.coordinatorOutput]

/-- **The work tells the workflow `w`**: the specialists of the plan were asked once each, then the coordinator about
all they said, and the result has what they answered. -/
structure Synthesis (lower : String → String) (inv : Invocation τ) (worked : Worked τ) (w : WorkflowState) : Prop where
  delegated : (w.specialists.map (·.role)).Perm (inv.plan lower)
  inOrder : inv.useLanggraph = false → w.specialists.map (·.role) = inv.plan lower
  asked : ∀ step ∈ w.specialists, ∃ j, (inv.plan lower)[j]? = some step.role ∧
    worked.calls.filter (·.place = j) =
      [⟨j, systemPromptForRole inv.baseProfile step.role.value, inv.question step.role⟩] ∧
    worked.answers.filter (·.1 = j) = [(j, step.output)]
  concluded : worked.calls.filter (·.place = (inv.plan lower).length) =
      [⟨(inv.plan lower).length, systemPromptForRole inv.baseProfile PersonalityRole.coordinator.value,
        inv.synthesis (w.specialists.map (·.told))⟩] ∧
    worked.answers.filter (·.1 = (inv.plan lower).length) = [((inv.plan lower).length, w.coordinatorOutput)]
  only : ∀ c ∈ worked.calls, c.place ≤ (inv.plan lower).length
  steps : worked.result.workflow.steps.map (fun step => (step.role, step.output)) = w.steps.map (·.told)
  status : worked.result.workflow.status = "completed"
  response : worked.result.response = w.coordinatorOutput
  messages : worked.result.session.messages =
    inv.session.messages ++ [("user", inv.task), ("assistant", w.coordinatorOutput)]
  personalitiesUsed : worked.result.personalitiesUsed = w.steps.map (·.role.value)
  entries : worked.entries = w.entries

/-! ## The graph -/

section Graph
variable {roles : List PersonalityRole} {task : String} {events : List (ℕ × Event τ)} {caller : Workflow.Caller}

theorem graphTurn_step {j : ℕ} {role : PersonalityRole} (hj : roles[j]? = some role) :
    (graphTurn task roles).steps[j]? = some
      { role := role.value, task := "As " ++ role.value ++ ", contribute your perspective on: " ++ task } := by
  unfold graphTurn
  rw [List.getElem?_map, hj, Option.map_some]

theorem length_graphTurn : (graphTurn task roles).steps.length = roles.length := List.length_map _

/-- The answers of the specialists, each at its place once. -/
theorem graph_answers (hturn : WholeTurn caller (graphTurn task roles) events) (goal : String) :
    (∀ a ∈ Workflow.llmAnswers ({ state := { goal := goal } } : Progress τ) events, a.1 < roles.length) ∧
      ((Workflow.llmAnswers ({ state := { goal := goal } } : Progress τ) events).map Prod.fst).Perm
        (List.range roles.length) := by
  have hinside : ∀ a ∈ Workflow.llmAnswers ({ state := { goal := goal } } : Progress τ) events, a.1 < roles.length := by
    intro a ha
    have hlt := (Workflow.mem_llmAnswers hturn.inside ha).2
    rwa [length_graphTurn, Nat.zero_add] at hlt
  refine ⟨hinside, places_perm hinside fun j hj => ?_⟩
  obtain ⟨-, x, hx⟩ := @asked_once _ _ { state := { goal := goal } } _ _ hturn _ _
    (graphTurn_step (List.getElem?_eq_getElem hj))
  rw [Nat.zero_add] at hx
  exact ⟨x, hx⟩

/-- **What the graph returns**: the answers of the specialists in the order in which they came. -/
theorem runLanggraphTeam_spec (hroles : roles.Nodup) (hcaller : caller.hasToolRunner = true) {output : String}
    {graph : GraphState τ} (h : runLanggraphTeam roles events output = some graph) (task : String) :
    WholeTurn caller (graphTurn task roles) events ∧ graph.coordinatorOutput = output ∧ graph.specialistOutputs =
      (heard roles (Workflow.llmAnswers ({ state := { goal := task } } : Progress τ) events)).map (·.told) := by
  obtain ⟨stages, hexec, hrest⟩ := Option.bind_eq_some_iff.mp h
  obtain ⟨results, hgathered, hstate⟩ := Option.bind_eq_some_iff.mp hrest
  obtain rfl := Option.some.inj hstate
  have hready : roles.map (fun _ => (Stage.ready : Stage τ)) = (graphTurn task roles).steps.map fun _ => .ready := by
    unfold graphTurn
    rw [List.map_map]
    rfl
  rw [hready, ← hcaller] at hexec
  have hturn := wholeTurn_of_gathered hexec hgathered
  refine ⟨hturn, rfl, ?_⟩
  have hheard := roles_heard (graph_answers hturn task).2
  rw [outputsOf_eq roles events task]
  -- no role answers twice
  refine Py.assign_new ?_
  rw [List.nil_append, List.map_map]
  have hkeys := (hheard.nodup_iff.mpr hroles).map value_injective
  rwa [List.map_map] at hkeys

theorem foldl_addStep (f : String × String → String) (l : List (String × String))
    (workflow : Workflow.WorkflowState τ) :
    (l.foldl (fun (workflow : Workflow.WorkflowState τ) e => workflow.addStep e.1 (f e) e.2 []) workflow).steps =
      workflow.steps ++ l.map fun e => ⟨e.1, f e, e.2, []⟩ := by
  induction l generalizing workflow with
  | nil => exact (List.append_nil _).symm
  | cons e l ih =>
      rw [List.foldl_cons, ih, List.map_cons]
      exact List.append_assoc _ [_] _

/-- The calls and answers of the specialists, by place, when the coordinator's are added. -/
theorem graph_asked (hturn : WholeTurn caller (graphTurn task roles) events) (goal system prompt output : String)
    {j : ℕ} {role : PersonalityRole} (hj : roles[j]? = some role) :
    (Workflow.llmCalls caller ({ state := { goal := goal } } : Progress τ) (graphTurn task roles) events ++
        [LlmCall.mk roles.length system prompt]).filter (·.place = j) = [⟨j, caller.systemPromptForRole role.value,
          "As " ++ role.value ++ ", contribute your perspective on: " ++ task⟩] ∧
      ∃ x, (Workflow.llmAnswers ({ state := { goal := goal } } : Progress τ) events ++
        [(roles.length, output)]).filter (·.1 = j) = [(j, x)] := by
  have hne : roles.length ≠ j := (List.getElem?_eq_some_iff.mp hj).1.ne'
  obtain ⟨hcalls, x, hx⟩ := @asked_once _ _ { state := { goal := goal } } _ _ hturn _ _ (graphTurn_step hj)
  rw [Nat.zero_add] at hcalls hx
  rw [List.filter_append, List.filter_append, hcalls, hx]
  exact ⟨by simp [hne]; rfl, x, by simp [hne]⟩

/-- Those of the coordinator. -/
theorem graph_concluded (hturn : WholeTurn caller (graphTurn task roles) events) (goal system prompt output : String) :
    (Workflow.llmCalls caller ({ state := { goal := goal } } : Progress τ) (graphTurn task roles) events ++
        [LlmCall.mk roles.length system prompt]).filter (·.place = roles.length) =
          [LlmCall.mk roles.length system prompt] ∧
      (Workflow.llmAnswers ({ state := { goal := goal } } : Progress τ) events ++ [(roles.length, output)]).filter
        (·.1 = roles.length) = [(roles.length, output)] := by
  have hcalls : (Workflow.llmCalls caller ({ state := { goal := goal } } : Progress τ) (graphTurn task roles)
      events).filter (·.place = roles.length) = [] := by
    refine List.filter_eq_nil_iff.mpr fun c hc heq => ?_
    have hlt := (Workflow.mem_llmCalls hc).2
    rw [length_graphTurn, Nat.zero_add] at hlt
    exact hlt.ne (of_decide_eq_true heq)
  have hanswers : (Workflow.llmAnswers ({ state := { goal := goal } } : Progress τ) events).filter
      (·.1 = roles.length) = [] :=
    List.filter_eq_nil_iff.mpr fun a ha heq => ((graph_answers hturn goal).1 a ha).ne (of_decide_eq_true heq)
  rw [List.filter_append, List.filter_append, hcalls, hanswers]
  exact ⟨by simp, by simp⟩

end Graph

/-- What the path of the graph does, in terms of the graph. -/
structure GraphPath (lower : String → String) (inv : Invocation τ) (events : List (ℕ × Event τ)) (graph : GraphState τ)
    (worked : Worked τ) : Prop where
  calls : worked.calls =
    Workflow.llmCalls inv.caller ({ state := { goal := inv.task } } : Progress τ) (graphTurn inv.task (inv.plan lower))
      events ++ [⟨(inv.plan lower).length, systemPromptForRole inv.baseProfile PersonalityRole.coordinator.value,
        graphSynthesis inv.task graph.specialistOutputs⟩]
  answers : worked.answers = Workflow.llmAnswers ({ state := { goal := inv.task } } : Progress τ) events ++
    [((inv.plan lower).length, graph.coordinatorOutput)]
  entries : worked.entries = graph.specialistOutputs.map (fun e => decision e.1 e.2) ++
    [reply PersonalityRole.coordinator.value graph.coordinatorOutput]
  steps : worked.result.workflow.steps.map (fun step => (step.role, step.output)) =
    graph.specialistOutputs ++ [(PersonalityRole.coordinator.value, graph.coordinatorOutput)]
  status : worked.result.workflow.status = "completed"
  response : worked.result.response = graph.coordinatorOutput
  messages : worked.result.session.messages =
    inv.session.messages ++ [("user", inv.task), ("assistant", graph.coordinatorOutput)]
  personalitiesUsed : worked.result.personalitiesUsed =
    graph.specialistOutputs.map (·.1) ++ [PersonalityRole.coordinator.value]

theorem langgraphPath_spec {events : List (ℕ × Event τ)} {output : String} {worked : Worked τ}
    (h : inv.langgraphPath lower events output = some worked) :
    ∃ graph, runLanggraphTeam (inv.plan lower) events output = some graph ∧
      GraphPath lower inv events graph worked := by
  obtain ⟨graph, hrun, hworked⟩ := Option.bind_eq_some_iff.mp h
  obtain rfl := Option.some.inj hworked
  refine ⟨graph, hrun, rfl, rfl, rfl, ?_, rfl, rfl, List.append_assoc _ [_] [_], rfl⟩
  show List.map _ ((List.foldl _ _ graph.specialistOutputs : Workflow.WorkflowState τ).steps ++ [_]) = _
  rw [foldl_addStep, List.nil_append, List.map_append, List.map_map]
  congr 1
  exact List.map_id _

/-- **The graph tells its work.** -/
theorem langgraphPath_synthesis (hgraph : inv.useLanggraph = true) {events : List (ℕ × Event τ)} {output : String}
    {worked : Worked τ} (h : inv.langgraphPath lower events output = some worked) :
    ∃ w, Synthesis lower inv worked w := by
  obtain ⟨graph, hrun, hpath⟩ := langgraphPath_spec h
  obtain ⟨hturn, -, houtputs⟩ := @runLanggraphTeam_spec _ _ _ inv.caller plan_nodup rfl _ _ hrun inv.task
  have hperm := roles_heard (graph_answers hturn inv.task).2
  obtain ⟨w, hw, houtput⟩ := exists_workflow hperm graph.coordinatorOutput
  rw [← hw] at houtputs
  have hconcluded := graph_concluded hturn inv.task
    (systemPromptForRole inv.baseProfile PersonalityRole.coordinator.value)
    (graphSynthesis inv.task graph.specialistOutputs) graph.coordinatorOutput
  rw [← hpath.calls, ← hpath.answers] at hconcluded
  have hnochain (hchain : inv.useLanggraph = false) : w.specialists.map (·.role) = inv.plan lower :=
    absurd (hgraph.symm.trans hchain) (by decide)
  refine ⟨w, ?_, hnochain, ?_, ?_, ?_, ?_, hpath.status, ?_, ?_, ?_, ?_⟩
  · rw [hw]
    exact hperm
  · intro step hstep
    rw [hw] at hstep
    obtain ⟨a, ha, hrole⟩ := List.mem_filterMap.mp hstep
    obtain ⟨role, hj, rfl⟩ := Option.map_eq_some_iff.mp hrole
    have hasked := graph_asked hturn inv.task
      (systemPromptForRole inv.baseProfile PersonalityRole.coordinator.value)
      (graphSynthesis inv.task graph.specialistOutputs) graph.coordinatorOutput hj
    rw [← hpath.calls, ← hpath.answers] at hasked
    obtain ⟨hcalls, output, hanswers⟩ := hasked
    refine ⟨a.1, hj, ?_, ?_⟩
    · unfold Invocation.question
      rw [hgraph, if_pos rfl]
      exact hcalls
    · have hmem : a ∈ worked.answers.filter (·.1 = a.1) := by
        rw [hpath.answers]
        exact List.mem_filter.mpr ⟨List.mem_append_left _ ha, decide_eq_true rfl⟩
      rw [hanswers] at hmem ⊢
      rw [List.mem_singleton.mp hmem]
  · unfold Invocation.synthesis
    rw [hgraph, if_pos rfl, houtput, ← houtputs]
    exact hconcluded
  · intro c hc
    rw [hpath.calls] at hc
    rcases List.mem_append.mp hc with hc | hc
    · have hlt := (Workflow.mem_llmCalls hc).2
      rw [length_graphTurn, Nat.zero_add] at hlt
      exact hlt.le
    · rw [List.mem_singleton.mp hc]
  · rw [hpath.steps, houtputs, WorkflowState.steps, List.map_append, houtput]
    rfl
  · rw [hpath.response, houtput]
  · rw [hpath.messages, houtput]
  · rw [hpath.personalitiesUsed, houtputs, WorkflowState.steps, List.map_append, List.map_map]
    rfl
  · rw [hpath.entries, houtputs, WorkflowState.entries, houtput, List.map_map]
    rfl

/-! ## The chain -/

/-- **The turns of the chain**: the specialists together, then the coordinator. -/
theorem chain_batches (hplan : inv.plan lower ≠ []) : (inv.chain lower).batches =
    [⟨(inv.plan lower).map inv.specialistStep, true⟩, ⟨[inv.coordinatorStep lower], false⟩] := by
  have hgroup (roles : List PersonalityRole) (last : DelegationStep) (hlast : last.parallelGroup = none) :
      (roles.map inv.specialistStep ++ [last]).takeWhile (·.parallelGroup = some "specialists") =
          roles.map inv.specialistStep ∧
        (roles.map inv.specialistStep ++ [last]).dropWhile (·.parallelGroup = some "specialists") = [last] := by
    have hall : ∀ step ∈ roles.map inv.specialistStep, decide (step.parallelGroup = some "specialists") = true := by
      intro step hstep
      obtain ⟨role, -, rfl⟩ := List.mem_map.mp hstep
      rfl
    rw [List.takeWhile_append_of_pos hall, List.dropWhile_append_of_pos hall]
    exact ⟨by simp [hlast], by simp [hlast]⟩
  have hsteps : (inv.chain lower).steps = (inv.plan lower).map inv.specialistStep ++ [inv.coordinatorStep lower] := rfl
  unfold Workflow.WorkflowChain.batches
  rw [hsteps]
  obtain ⟨role, roles, hcons⟩ := List.exists_cons_of_ne_nil hplan
  obtain ⟨htake, hdrop⟩ := hgroup roles (inv.coordinatorStep lower) rfl
  rw [hcons, List.map_cons, List.cons_append, List.length_cons, List.length_append, List.length_singleton]
  have hfirst : Workflow.nextBatch (inv.specialistStep role :: (roles.map inv.specialistStep ++
      [inv.coordinatorStep lower])) = some (⟨inv.specialistStep role :: roles.map inv.specialistStep, true⟩,
        [inv.coordinatorStep lower]) := by
    rw [Workflow.nextBatch]
    split
    · next group hsome =>
        have hfilter : (inv.specialistStep role).parallelGroup.filter (· ≠ "") = some "specialists" := rfl
        obtain rfl := Option.some.inj (hsome.symm.trans hfilter)
        rw [htake, hdrop]
    · next hnone =>
        have hfilter : (inv.specialistStep role).parallelGroup.filter (· ≠ "") = some "specialists" := rfl
        exact absurd (hnone.symm.trans hfilter) (Option.some_ne_none _).symm
  have hnone (n : ℕ) : Workflow.batchesFrom n [] = [] := by
    cases n <;> rfl
  rw [Workflow.batchesFrom, hfirst]
  dsimp only
  rw [Workflow.batchesFrom]
  exact congrArg _ (congrArg _ (hnone _))

/-- What the path of the chain does, in terms of the end of its loop. -/
structure ChainPath (inv : Invocation τ) (p : Progress τ) (worked : Worked τ) : Prop where
  calls : worked.calls = p.calls
  answers : worked.answers = p.answers
  steps : worked.result.workflow.steps = p.state.steps
  status : worked.result.workflow.status = "completed"
  response : worked.result.response = (p.state.steps.getLast?.map (·.output)).getD ""
  messages : worked.result.session.messages = inv.session.messages ++
    [("user", inv.task), ("assistant", (p.state.steps.getLast?.map (·.output)).getD "")]
  personalitiesUsed : worked.result.personalitiesUsed = p.state.steps.map (·.role)
  entries : worked.entries = p.state.steps.map fun step =>
    if step.role = PersonalityRole.coordinator.value then reply step.role step.output
    else decision step.role step.output

theorem chainPath_spec {schedule : List (List (ℕ × Event τ))} {worked : Worked τ}
    (h : inv.chainPath lower schedule = some worked) : ∃ p, Workflow.runBatches inv.caller
      { state := { goal := inv.task } } (inv.chain lower).batches schedule = some p ∧ ChainPath inv p worked := by
  unfold Invocation.chainPath at h
  rw [Option.bind_eq_bind] at h
  obtain ⟨p', hexec, hworked⟩ := Option.bind_eq_some_iff.mp h
  unfold executeWorkflowChainParallel at hexec
  obtain ⟨p, hrun, rfl⟩ := Option.map_eq_some_iff.mp hexec
  obtain rfl := Option.some.inj hworked
  refine ⟨p, hrun, rfl, rfl, rfl, rfl, rfl, ?_, rfl, rfl⟩
  exact List.append_assoc inv.session.messages [("user", inv.task)] _

/-- The context of a step that depends on distinct roles, each recorded. -/
theorem priorContext_eq {records : List (Workflow.WorkflowStepRecord τ)} (hroles : (records.map (·.role)).Nodup)
    {step : DelegationStep} (hstep : step.dependsOn = records.map (·.role)) :
    Workflow.priorContext records step = records.map fun r => "[" ++ r.role ++ "]: " ++ r.output := by
  have hlatest : ∀ r ∈ records, Workflow.latest records r.role = some r.output := by
    intro r hr
    have hown : r ∈ records.filter (·.role = r.role) := List.mem_filter.mpr ⟨hr, decide_eq_true rfl⟩
    obtain ⟨last, hlast⟩ := Option.isSome_iff_exists.mp (List.getLast?_isSome.mpr (List.ne_nil_of_mem hown))
    obtain ⟨hmem, hrole⟩ := List.mem_filter.mp (List.mem_of_getLast? hlast)
    have hsame : last = r := List.inj_on_of_nodup_map hroles hmem hr (of_decide_eq_true hrole)
    unfold Workflow.latest
    rw [hlast, Option.map_some, hsame]
  unfold Workflow.priorContext
  rw [hstep, List.filterMap_map]
  have hall (l : List (Workflow.WorkflowStepRecord τ)) (hl : ∀ r ∈ l, r ∈ records) :
      l.filterMap (fun r => (Workflow.latest records r.role).map fun output => "[" ++ r.role ++ "]: " ++ output) =
        l.map fun r => "[" ++ r.role ++ "]: " ++ r.output := by
    induction l with
    | nil => rfl
    | cons r l ih =>
        obtain ⟨hr, hl⟩ := List.forall_mem_cons.mp hl
        rw [List.filterMap_cons, hlatest r hr, Option.map_some, List.map_cons, ← ih hl]
  exact hall records fun r hr => hr

/-- A context of some bits is not empty. -/
theorem promptWith_bits (step : DelegationStep) {bits : List String} (hbits : bits ≠ [])
    (hfull : ∀ bit ∈ bits, bit ≠ "") :
    Workflow.promptWith step bits = step.task ++ "\n\nPrior context:\n" ++ "\n".intercalate bits := by
  have hne : "\n".intercalate bits ≠ "" := by
    obtain ⟨bit, rest, rfl⟩ := List.exists_cons_of_ne_nil hbits
    have hbit := hfull bit List.mem_cons_self
    cases rest with
    | nil => rwa [String.intercalate_singleton]
    | cons second rest =>
        rw [String.intercalate_cons_cons]
        intro hempty
        rw [String.append_eq_empty_iff, String.append_eq_empty_iff] at hempty
        exact hbit hempty.1.1
  exact if_neg hne

/-- The records of the specialists, told with their roles. -/
theorem told_zip {roles : List PersonalityRole} {records : List (Workflow.WorkflowStepRecord τ)}
    (h : records.map (·.role) = roles.map PersonalityRole.value) :
    ((roles.zip records).map fun e => (⟨e.1, e.2.output⟩ : WorkflowStepRecord)).map (·.told) =
      records.map fun r => (r.role, r.output) := by
  induction records generalizing roles with
  | nil =>
      rw [List.zip_nil_right]
      rfl
  | cons r records ih =>
      cases roles with
      | nil => cases h
      | cons role roles =>
          obtain ⟨hrole, hrest⟩ := List.cons.inj h
          have hrole : r.role = role.value := hrole
          rw [List.zip_cons_cons, List.map_cons, List.map_cons, ih hrest, List.map_cons, hrole]
          rfl

/-- The end of the loop over the chain: a record for each specialist of the plan in its order, then the coordinator's,
and who was asked what. -/
structure ChainEnd (lower : String → String) (inv : Invocation τ) (p : Progress τ)
    (records : List (Workflow.WorkflowStepRecord τ)) (last : Workflow.WorkflowStepRecord τ) : Prop where
  steps : p.state.steps = records ++ [last]
  roles : records.map (·.role) = (inv.plan lower).map PersonalityRole.value
  role : last.role = PersonalityRole.coordinator.value
  asked : ∀ j role record, (inv.plan lower)[j]? = some role → records[j]? = some record →
    p.calls.filter (·.place = j) =
        [⟨j, systemPromptForRole inv.baseProfile role.value, (inv.specialistStep role).task⟩] ∧
      p.answers.filter (·.1 = j) = [(j, record.output)]
  concluded : p.calls.filter (·.place = (inv.plan lower).length) =
      [⟨(inv.plan lower).length, systemPromptForRole inv.baseProfile PersonalityRole.coordinator.value,
        Workflow.promptWith (inv.coordinatorStep lower) (Workflow.priorContext records (inv.coordinatorStep lower))⟩] ∧
    p.answers.filter (·.1 = (inv.plan lower).length) = [((inv.plan lower).length, last.output)]
  only : ∀ c ∈ p.calls, c.place ≤ (inv.plan lower).length

theorem chainEnd_of_run {schedule : List (List (ℕ × Event τ))} {p : Progress τ}
    (h : Workflow.runBatches inv.caller { state := { goal := inv.task } } (inv.chain lower).batches schedule = some p) :
    ∃ records last, ChainEnd lower inv p records last := by
  obtain ⟨q, hq, hi⟩ := (Workflow.inv_init inv.caller inv.task).run (wholeTurns_of_runBatches h)
  obtain rfl := Option.some.inj (hq.symm.trans h)
  rw [List.nil_append, chain_batches plan_ne_nil] at hi
  have hcount : Workflow.count [⟨(inv.plan lower).map inv.specialistStep, true⟩] = (inv.plan lower).length := by
    rw [Workflow.count_singleton, List.length_map]
  have hlength : q.state.steps.length = (inv.plan lower).length + 1 := by
    rw [hi.length, ← List.singleton_append, Workflow.count_append, hcount, Workflow.count_singleton]
    rfl
  have hspecialist {j : ℕ} {role : PersonalityRole} (hj : (inv.plan lower)[j]? = some role) := hi.served []
    ⟨(inv.plan lower).map inv.specialistStep, true⟩ [⟨[inv.coordinatorStep lower], false⟩] rfl j
    (inv.specialistStep role) (by rw [List.getElem?_map, hj, Option.map_some])
  have hcoordinator := hi.served [⟨(inv.plan lower).map inv.specialistStep, true⟩]
    ⟨[inv.coordinatorStep lower], false⟩ [] rfl 0 (inv.coordinatorStep lower) rfl
  rw [hcount, Nat.add_zero] at hcoordinator
  obtain ⟨records, last, hsteps⟩ : ∃ records last, q.state.steps = records ++ [last] := by
    rcases List.eq_nil_or_concat q.state.steps with hnil | ⟨records, last, hconcat⟩
    · rw [hnil] at hlength
      cases hlength
    · exact ⟨records, last, hconcat.trans (List.concat_eq_append ..)⟩
  have hrecords : records.length = (inv.plan lower).length := by
    rw [hsteps, List.length_append, List.length_singleton] at hlength
    exact Nat.succ.inj hlength
  have hfirst {j : ℕ} {role : PersonalityRole} (hj : (inv.plan lower)[j]? = some role) :
      q.calls.filter (·.place = j) =
          [⟨j, systemPromptForRole inv.baseProfile role.value, (inv.specialistStep role).task⟩] ∧
        ∃ record, records[j]? = some record ∧ record.role = role.value ∧
          q.answers.filter (·.1 = j) = [(j, record.output)] := by
    have hlt : j < records.length := hrecords ▸ (List.getElem?_eq_some_iff.mp hj).1
    obtain ⟨hcall, output, toolCalls, hanswer, hrecord⟩ := hspecialist hj
    rw [show Workflow.count ([] : List Batch) + j = j from Nat.zero_add j] at hcall hanswer hrecord
    rw [hsteps, List.getElem?_append_left hlt] at hrecord
    exact ⟨hcall, _, hrecord, rfl, hanswer⟩
  obtain ⟨hcall, output, toolCalls, hanswer, hrecord⟩ := hcoordinator
  rw [hsteps, ← hrecords, List.getElem?_append_right le_rfl, Nat.sub_self, List.getElem?_cons_zero] at hrecord
  obtain rfl := Option.some.inj hrecord
  refine ⟨records, _, hsteps, ?_, rfl, ?_, ⟨?_, hanswer⟩, ?_⟩
  · refine List.ext_getElem? fun j => ?_
    rw [List.getElem?_map, List.getElem?_map]
    cases hj : (inv.plan lower)[j]? with
    | none =>
        rw [List.getElem?_eq_none_iff, ← hrecords] at hj
        rw [List.getElem?_eq_none hj]
        rfl
    | some role =>
        obtain ⟨-, record, hrecord, hrole, -⟩ := hfirst hj
        rw [hrecord, Option.map_some, Option.map_some, hrole]
  · intro j role record hj hget
    obtain ⟨hcalls, record', hrecord, -, hanswers⟩ := hfirst hj
    obtain rfl := Option.some.inj (hrecord.symm.trans hget)
    exact ⟨hcalls, hanswers⟩
  · rw [hcall, hsteps, ← hrecords, List.take_left]
    rfl
  · intro c hc
    have hlt := hi.calls c hc
    rw [← List.singleton_append, Workflow.count_append, hcount, Workflow.count_singleton] at hlt
    exact Nat.le_of_lt_succ hlt

/-- **The chain tells its work.** -/
theorem chainPath_synthesis (hchain : inv.useLanggraph = false) {schedule : List (List (ℕ × Event τ))}
    {worked : Worked τ} (h : inv.chainPath lower schedule = some worked) : ∃ w, Synthesis lower inv worked w := by
  obtain ⟨p, hrun, hpath⟩ := chainPath_spec h
  obtain ⟨records, last, hend⟩ := chainEnd_of_run hrun
  have hlength : (inv.plan lower).length = records.length := by
    have hmap := congrArg List.length hend.roles
    rw [List.length_map, List.length_map] at hmap
    exact hmap.symm
  have hzip : (((inv.plan lower).zip records).map fun e => (⟨e.1, e.2.output⟩ : WorkflowStepRecord)).map (·.role) =
      inv.plan lower := by
    rw [List.map_map]
    exact List.map_fst_zip hlength.le
  obtain ⟨w, hw, houtput⟩ := exists_workflow (List.Perm.of_eq hzip) last.output
  rw [← hw] at hzip
  have htold : w.specialists.map (·.told) = records.map fun r => (r.role, r.output) := by
    rw [hw]
    exact told_zip hend.roles
  have hnodup : (records.map (·.role)).Nodup := by
    rw [hend.roles]
    exact plan_nodup.map value_injective
  have hlast : (p.state.steps.getLast?.map (·.output)).getD "" = last.output := by
    rw [hend.steps, List.getLast?_concat]
    rfl
  have hsteps : w.steps.map (·.told) = p.state.steps.map fun step => (step.role, step.output) := by
    rw [hend.steps, List.map_append, WorkflowState.steps, List.map_append, htold, houtput, List.map_singleton,
      List.map_singleton, hend.role]
    rfl
  refine ⟨w, .of_eq hzip, fun _ => hzip, ?_, ⟨?_, ?_⟩, ?_, ?_, hpath.status, ?_, ?_, ?_, ?_⟩
  · intro step hstep
    rw [hw] at hstep
    obtain ⟨e, he, rfl⟩ := List.mem_map.mp hstep
    obtain ⟨j, hj⟩ := List.mem_iff_getElem?.mp he
    obtain ⟨hrole, hrecord⟩ := List.getElem?_zip_eq_some.mp hj
    obtain ⟨hcalls, hanswers⟩ := hend.asked j e.1 e.2 hrole hrecord
    rw [← hpath.calls] at hcalls
    rw [← hpath.answers] at hanswers
    refine ⟨j, hrole, ?_, hanswers⟩
    unfold Invocation.question
    rw [hchain]
    exact hcalls
  · have hbits := @priorContext_eq _ _ hnodup (inv.coordinatorStep lower) hend.roles.symm
    have hne : (records.map fun r => "[" ++ r.role ++ "]: " ++ r.output) ≠ [] := by
      rw [ne_eq, List.map_eq_nil_iff, ← List.length_eq_zero_iff, ← hlength, List.length_eq_zero_iff]
      exact plan_ne_nil
    have hfull : ∀ bit ∈ records.map (fun r => "[" ++ r.role ++ "]: " ++ r.output), bit ≠ "" := by
      intro bit hbit hempty
      obtain ⟨r, -, rfl⟩ := List.mem_map.mp hbit
      rw [String.append_eq_empty_iff, String.append_eq_empty_iff, String.append_eq_empty_iff] at hempty
      exact absurd hempty.1.1.1 (by decide)
    have hasked := hend.concluded.1
    rw [hbits, promptWith_bits _ hne hfull] at hasked
    rw [hpath.calls, hasked, htold]
    unfold Invocation.synthesis
    rw [hchain, List.map_map]
    rfl
  · rw [hpath.answers, houtput]
    exact hend.concluded.2
  · rw [hpath.calls]
    exact hend.only
  · rw [hpath.steps, hsteps]
  · rw [hpath.response, hlast, houtput]
  · rw [hpath.messages, hlast, houtput]
  · have hroles := congrArg (List.map Prod.fst) hsteps
    rw [List.map_map, List.map_map] at hroles
    rw [hpath.personalitiesUsed]
    exact hroles.symm
  · have hother : ∀ r ∈ records, r.role ≠ PersonalityRole.coordinator.value := by
      intro r hr hrole
      have hmem : r.role ∈ (inv.plan lower).map PersonalityRole.value := hend.roles ▸ List.mem_map_of_mem hr
      obtain ⟨role, hplan, hvalue⟩ := List.mem_map.mp hmem
      obtain rfl := value_injective (hvalue.trans hrole)
      exact coordinator_notMem_plan hplan
    have hdecisions : w.specialists.map (fun step => decision step.role.value step.output) =
        records.map fun r => decision r.role r.output := by
      have hmap := congrArg (List.map fun e : String × String => decision e.1 e.2) htold
      rw [List.map_map, List.map_map] at hmap
      exact hmap
    rw [hpath.entries, hend.steps, List.map_append, WorkflowState.entries, hdecisions, houtput, List.map_singleton,
      if_pos hend.role, hend.role]
    exact congrArg (· ++ _) (List.map_congr_left fun r hr => if_neg (hother r hr))

/-- **Whichever path is taken, it tells its work.** -/
theorem path_synthesis {work : Work τ} {worked : Worked τ} (h : inv.path lower work = some worked) :
    ∃ w, Synthesis lower inv worked w := by
  cases work with
  | langgraph events output =>
      unfold Invocation.path at h
      obtain ⟨hgraph, h⟩ := Option.ite_none_right_eq_some.mp h
      exact langgraphPath_synthesis hgraph h
  | chain schedule =>
      unfold Invocation.path at h
      obtain ⟨hchain, h⟩ := Option.ite_none_left_eq_some.mp h
      exact chainPath_synthesis (Bool.eq_false_iff.mpr hchain) h

end Persola.Team
