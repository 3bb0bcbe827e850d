import Persola.Lib.Runs
import Persola.Lib.Py
import Mathlib.Data.List.Induction

/-!
# `Team.Timing` — a team run under every order of completions

The specialists of a team are asked at once, and what they answer is collected by coroutines that write into one
dictionary and one list as they resume. Which coroutine resumes next is up to the model and the tools; here it is
the label of the step. What is collected does not depend on it; in which order it is collected does, and the order
is kept in everything that is made of it.
-/

namespace Persola.Team

open Runs

variable {τ : Type*}

/-! ## The graph -/

/-- `TeamGraphState`. -/
structure TeamGraphState (τ : Type*) where
  task : String
  specialists : List String
  specialistOutputs : List (String × String) := []
  coordinatorOutput : Option String := none
  toolResults : List τ := []
deriving DecidableEq

/-- What a team run is given to call. The answers depend on the arguments only. -/
structure TeamFns (τ : Type*) where
  llmFn : String → String → String
  systemPromptForRole : String → String
  toolRunner : Option (String → String → List τ) := none

/-- What a coroutine `_run_role` waits for. -/
inductive RoleStage
  | llm
  | tools (output : String)
  | done
deriving DecidableEq

/-- The coroutines under `asyncio.gather` and what they share. -/
structure Gather (τ : Type*) where
  roles : List (String × RoleStage)
  outputs : List (String × String) := []
  toolResults : List τ := []

namespace Gather

def start (specialists : List String) : Gather τ := { roles := specialists.map (·, .llm) }

def finished (g : Gather τ) : Bool := g.roles.all (·.2 = .done)

end Gather

namespace TeamFns

variable (fns : TeamFns τ) (task : String)

/-- The answer of the model to a role. -/
def contribute (role : String) : String :=
  fns.llmFn (fns.systemPromptForRole role) s!"As {role}, contribute your perspective on: {task}"

/-- The results of the tools of a role. -/
def results (role : String) : List τ := fns.toolRunner.elim [] fun run => run role (fns.contribute task role)

/-- The call the coroutine at an index waits for completes, and the coroutine runs up to its next call. -/
def resume (g : Gather τ) (i : ℕ) : Option (Gather τ) :=
  match g.roles[i]? with
  | some (role, .llm) =>
      let output := fns.contribute task role
      some { g with
        outputs := Py.setItem g.outputs role output
        roles := g.roles.set i (role, if fns.toolRunner.isSome then .tools output else .done) }
  | some (role, .tools output) =>
      fns.toolRunner.map fun run => { g with
        toolResults := g.toolResults ++ run role output
        roles := g.roles.set i (role, .done) }
  | some (_, .done) => none
  | none => none

/-- The coroutines under every order of completions. -/
def roleRuns : System (Gather τ) ℕ where
  init g := ∃ specialists, g = .start specialists
  step := fns.resume task

/-- `await asyncio.gather(*[_run_role(role) for role in specialists])`, for one order of completions. -/
def gather (specialists : List String) (order : List ℕ) : Option (Gather τ) :=
  ((fns.roleRuns task).exec (.start specialists) order).filter Gather.finished

end TeamFns

/-- The user prompt of the coordinator. -/
def coordinatorPrompt (state : TeamGraphState τ) : String :=
  let context := "\n\n".intercalate (state.specialistOutputs.map fun (role, output) => s!"### {role}\n{output}")
  s!"Synthesize the team's work.\n\nTask: {state.task}\n\nTeam input:\n{context}"

/-- A node of the graph; `none` where an order of completions is not one of its calls. -/
abbrev Node (τ : Type*) := TeamGraphState τ → Option (TeamGraphState τ)

namespace TeamFns

variable (fns : TeamFns τ)

def specialistsNode (order : List ℕ) : Node τ := fun state =>
  (fns.gather state.task state.specialists order).map fun g =>
    { state with specialistOutputs := g.outputs, toolResults := g.toolResults }

def coordinatorNode : Node τ := fun state =>
  let response := fns.llmFn (fns.systemPromptForRole "coordinator") (coordinatorPrompt state)
  some { state with coordinatorOutput := some response }

/-- `_fallback_parallel_team`. -/
def fallbackParallelTeam (order : List ℕ) (task : String) (specialists : List String) :
    Option (TeamGraphState τ) :=
  (fns.gather task specialists order).map fun g =>
    let state : TeamGraphState τ :=
      { task, specialists, specialistOutputs := g.outputs, toolResults := g.toolResults }
    { state with
      coordinatorOutput := fns.llmFn (fns.systemPromptForRole "coordinator") (coordinatorPrompt state) }

/-- `run_langgraph_team`. What the compiled graph makes of its two nodes is a parameter, present where `langgraph`
    is installed. -/
def runLanggraphTeam (ainvoke : Option (Node τ → Node τ → Node τ)) (order : List ℕ) (task : String)
    (specialists : List String) : Option (TeamGraphState τ) :=
  match ainvoke with
  | none => fns.fallbackParallelTeam order task specialists
  | some ainvoke => ainvoke (fns.specialistsNode order) fns.coordinatorNode { task, specialists }

end TeamFns

/-- What two runs of one team have in common when nothing in them depends on timing. -/
structure SameTeamRun (final final' : TeamGraphState τ) : Prop where
  prompt : coordinatorPrompt final = coordinatorPrompt final'
  specialistOutputs : final.specialistOutputs = final'.specialistOutputs
  toolResults : final.toolResults = final'.toolResults
  coordinatorOutput : final.coordinatorOutput = final'.coordinatorOutput

/-- A team run comes out the same for every order of completions. -/
def TeamFns.Timeless (fns : TeamFns τ) (ainvoke : Option (Node τ → Node τ → Node τ)) (task : String)
    (specialists : List String) : Prop :=
  ∀ order order' final final', fns.runLanggraphTeam ainvoke order task specialists = some final →
    fns.runLanggraphTeam ainvoke order' task specialists = some final' → SameTeamRun final final'

/-! ## What is collected -/

section
variable {fns : TeamFns τ} {task : String} {specialists : List String} {g g' : Gather τ} {i : ℕ} {order : List ℕ}

/-- What is collected so far: the answers of the roles whose first call has completed and the results of those
    whose calls all have, each in the order of these completions. -/
structure Gather.Collected (fns : TeamFns τ) (task : String) (specialists : List String) (g : Gather τ) : Prop where
  roles : g.roles.map Prod.fst = specialists
  answer : ∀ role output, (role, .tools output) ∈ g.roles → output = fns.contribute task role
  outputs : ∃ answered : List String, answered.Perm ((g.roles.filter (·.2 ≠ .llm)).map Prod.fst) ∧
    g.outputs = answered.map fun role => (role, fns.contribute task role)
  toolResults : ∃ ended : List String, ended.Perm ((g.roles.filter (·.2 = .done)).map Prod.fst) ∧
    g.toolResults = ended.flatMap (fns.results task)

theorem collected_start : (Gather.start specialists).Collected fns task specialists where
  roles := by simp [Gather.start, Function.comp_def]
  answer := by
    intro role output h
    simp [Gather.start] at h
  outputs := ⟨[], by simp [Gather.start], rfl⟩
  toolResults := ⟨[], by simp [Gather.start], rfl⟩

theorem split_at {roles : List (String × RoleStage)} {e : String × RoleStage} (h : roles[i]? = some e) :
    ∃ pre post, roles = pre ++ e :: post ∧ ∀ e', roles.set i e' = pre ++ e' :: post := by
  obtain ⟨hi, rfl⟩ := List.getElem?_eq_some_iff.mp h
  refine ⟨roles.take i, roles.drop (i + 1), ?_, fun e' => List.set_eq_take_append_cons_drop .. |>.trans (if_pos hi)⟩
  rw [List.getElem_cons_drop, List.take_append_drop]

/-- One more role after the others. -/
theorem perm_insert {p : String × RoleStage → Bool} {pre post : List (String × RoleStage)} {role : String}
    {stage stage' : RoleStage} {l : List String} (hout : p (role, stage) = false) (hin : p (role, stage') = true)
    (h : l.Perm (((pre ++ (role, stage) :: post).filter p).map Prod.fst)) :
    (l ++ [role]).Perm (((pre ++ (role, stage') :: post).filter p).map Prod.fst) := by
  have hold : ((pre ++ (role, stage) :: post).filter p).map Prod.fst =
      ((pre ++ post).filter p).map Prod.fst := by simp [hout]
  have hnew : (((pre ++ (role, stage') :: post).filter p).map Prod.fst).Perm
      (role :: ((pre ++ post).filter p).map Prod.fst) := by
    simp only [List.filter_append, List.filter_cons, hin, if_true, List.map_append, List.map_cons]
    exact List.perm_middle
  exact (List.perm_append_singleton role l).trans (((hold ▸ h).cons role).trans hnew.symm)

/-- The same roles as before. -/
theorem filter_same {p : String × RoleStage → Bool} {pre post : List (String × RoleStage)} {role : String}
    {stage stage' : RoleStage} (h : p (role, stage') = p (role, stage)) :
    ((pre ++ (role, stage') :: post).filter p).map Prod.fst =
      ((pre ++ (role, stage) :: post).filter p).map Prod.fst := by
  simp only [List.filter_append, List.filter_cons, h, List.map_append]
  split
  · rfl
  · rfl

/-- The first call of a role completes: its answer is new, as no other coroutine has its name. -/
theorem collected_answer (hdistinct : specialists.Nodup) (hg : g.Collected fns task specialists) {role : String}
    (hi : g.roles[i]? = some (role, .llm)) (h : fns.resume task g i = some g') :
    g'.Collected fns task specialists := by
  obtain ⟨hroles, hanswer, ⟨answered, hanswered, houtputs⟩, ⟨ended, hended, hresults⟩⟩ := hg
  obtain ⟨pre, post, hsplit, hset⟩ := split_at hi
  simp only [TeamFns.resume, hi, hset, Option.some.injEq] at h
  subst h
  rw [hsplit] at hroles hanswer hanswered hended
  have hnew : role ∉ answered := by
    intro hmem
    have hmem := hanswered.mem_iff.mp hmem
    rw [← hroles, List.map_append, List.map_cons] at hdistinct
    have hothers := (List.nodup_middle.mp hdistinct).notMem
    have hfound : ∃ stage, ((role, stage) ∈ pre ∨ (role, stage) ∈ post) ∧ stage ≠ .llm := by
      simpa [← exists_or, ← or_and_right] using hmem
    obtain ⟨stage, hmem, -⟩ := hfound
    rw [← List.map_append] at hothers
    exact hothers (List.mem_map.mpr ⟨(role, stage), List.mem_append.mpr hmem, rfl⟩)
  have hset' : Py.setItem g.outputs role (fns.contribute task role) =
      (answered ++ [role]).map fun role => (role, fns.contribute task role) := by
    rw [houtputs, Py.setItem_new, List.map_append]
    · rfl
    · simpa using hnew
  refine ⟨?_, ?_, ⟨answered ++ [role], ?_, hset'⟩, ?_⟩
  · simpa using hroles
  · intro role' output hmem
    rcases List.mem_append.mp hmem with hmem | hmem
    · exact hanswer role' output (List.mem_append_left _ hmem)
    · rcases List.mem_cons.mp hmem with heq | hmem
      · split at heq
        · cases heq
          rfl
        · cases heq
      · exact hanswer role' output (List.mem_append_right _ (List.mem_cons_of_mem _ hmem))
  · refine perm_insert (by simp) ?_ hanswered
    split
    · simp
    · simp
  · cases hrunner : fns.toolRunner with
    | none =>
        refine ⟨ended ++ [role], perm_insert (by simp) (by simp) hended, ?_⟩
        rw [hresults, List.flatMap_append, List.flatMap_singleton]
        simp [TeamFns.results, hrunner]
    | some run =>
        refine ⟨ended, ?_, hresults⟩
        rw [filter_same]
        · exact hended
        · simp

/-- The calls of the tools of a role complete. -/
theorem collected_results (hg : g.Collected fns task specialists) {role output : String}
    (hi : g.roles[i]? = some (role, .tools output)) (h : fns.resume task g i = some g') :
    g'.Collected fns task specialists := by
  obtain ⟨hroles, hanswer, ⟨answered, hanswered, houtputs⟩, ⟨ended, hended, hresults⟩⟩ := hg
  obtain ⟨pre, post, hsplit, hset⟩ := split_at hi
  simp only [TeamFns.resume, hi, hset, Option.map_eq_some_iff] at h
  obtain ⟨run, hrunner, rfl⟩ := h
  rw [hsplit] at hroles hanswer hanswered hended
  have houtput : output = fns.contribute task role :=
    hanswer role output (List.mem_append_right _ List.mem_cons_self)
  have hrun : run role output = fns.results task role := by
    simp [TeamFns.results, hrunner, houtput]
  refine ⟨?_, ?_, ⟨answered, ?_, houtputs⟩, ⟨ended ++ [role], ?_, ?_⟩⟩
  · simpa using hroles
  · intro role' output' hmem
    apply hanswer role' output'
    have hmem : (role', .tools output') ∈ pre ∨ (role', .tools output') ∈ post := by simpa using hmem
    exact hmem.elim (List.mem_append_left _) fun hmem => List.mem_append_right _ (List.mem_cons_of_mem _ hmem)
  · rw [filter_same]
    · exact hanswered
    · simp
  · exact perm_insert (by simp) (by simp) hended
  · rw [List.flatMap_append, List.flatMap_singleton, hresults, hrun]

theorem collected_step (hdistinct : specialists.Nodup) (hg : g.Collected fns task specialists)
    (h : fns.resume task g i = some g') : g'.Collected fns task specialists := by
  have hsome := h
  unfold TeamFns.resume at hsome
  split at hsome
  · next hi => exact collected_answer hdistinct hg hi h
  · next hi => exact collected_results hg hi h
  · cases hsome
  · cases hsome

/-- **What a gather yields**, for every order of completions: one answer for each specialist and the results of its
    tools, in the orders in which their calls completed. -/
theorem gather_spec (hdistinct : specialists.Nodup) (h : fns.gather task specialists order = some g) :
    (∃ answered : List String, answered.Perm specialists ∧
      g.outputs = answered.map fun role => (role, fns.contribute task role)) ∧
    ∃ ended : List String, ended.Perm specialists ∧ g.toolResults = ended.flatMap (fns.results task) := by
  obtain ⟨hrun, hfinished⟩ := Option.filter_eq_some_iff.mp h
  have hcollected : g.Collected fns task specialists := by
    refine System.Run.invariant (I := fun g => g.Collected fns task specialists) ?_ (System.run_of_exec hrun)
      collected_start
    intro s i t hs _ hst
    exact collected_step hdistinct hs hst
  have hdone : ∀ e ∈ g.roles, e.2 = .done := by simpa [Gather.finished] using hfinished
  obtain ⟨hroles, -, ⟨answered, hanswered, houtputs⟩, ⟨ended, hended, hresults⟩⟩ := hcollected
  have hall : g.roles.filter (·.2 ≠ .llm) = g.roles := by
    apply List.filter_eq_self.mpr
    intro e he
    simp [hdone e he]
  have hall' : g.roles.filter (·.2 = .done) = g.roles := by
    apply List.filter_eq_self.mpr
    intro e he
    simp [hdone e he]
  rw [hall, hroles] at hanswered
  rw [hall', hroles] at hended
  exact ⟨⟨answered, hanswered, houtputs⟩, ⟨ended, hended, hresults⟩⟩

/-! ## Every order of completions -/

/-- The roles in `done` have completed all their calls, one role after another; the others wait for the model. -/
def Gather.after (fns : TeamFns τ) (task : String) (specialists done : List String) : Gather τ where
  roles := specialists.map fun role => (role, if role ∈ done then .done else .llm)
  outputs := done.map fun role => (role, fns.contribute task role)
  toolResults := done.flatMap (fns.results task)

/-- The other roles wait for the same as before when one more is done. -/
theorem stages_same {done l : List String} {role : String} (hl : role ∉ l) :
    l.map (fun r => (r, if r ∈ done ++ [role] then RoleStage.done else .llm)) =
      l.map fun r => (r, if r ∈ done then RoleStage.done else .llm) := by
  apply List.map_congr_left
  intro r hr
  have hne : r ≠ role := fun heq => hl (heq ▸ hr)
  simp [hne]

/-- One more role completes all its calls. -/
theorem exec_role (fns : TeamFns τ) (task : String) (hdistinct : specialists.Nodup) {done : List String}
    {role : String} (hrole : role ∈ specialists)
    (hnew : role ∉ done) :
    ∃ order, (fns.roleRuns task).exec (.after fns task specialists done) order =
      some (.after fns task specialists (done ++ [role])) := by
  obtain ⟨pre, post, rfl⟩ := List.append_of_mem hrole
  have hothers : role ∉ pre ++ post := (List.nodup_middle.mp hdistinct).notMem
  let before := pre.map fun role => (role, if role ∈ done then RoleStage.done else .llm)
  let behind := post.map fun role => (role, if role ∈ done then RoleStage.done else .llm)
  have hlength : before.length = pre.length := List.length_map ..
  have hat (stage : RoleStage) : (before ++ (role, stage) :: behind)[pre.length]? = some (role, stage) := by
    rw [← hlength]
    simp
  have hset (stage stage' : RoleStage) :
      (before ++ (role, stage) :: behind).set pre.length (role, stage') = before ++ (role, stage') :: behind := by
    rw [← hlength]
    simp
  have hroles : (Gather.after fns task (pre ++ role :: post) done).roles = before ++ (role, .llm) :: behind := by
    simp [Gather.after, before, behind, hnew]
  have hroles' : (Gather.after fns task (pre ++ role :: post) (done ++ [role])).roles =
      before ++ (role, .done) :: behind := by
    rw [List.mem_append, not_or] at hothers
    show (pre ++ role :: post).map _ = _
    rw [List.map_append, List.map_cons, stages_same hothers.1, stages_same hothers.2]
    simp [before, behind]
  have houtputs : Py.setItem (Gather.after fns task (pre ++ role :: post) done).outputs role
      (fns.contribute task role) = (Gather.after fns task (pre ++ role :: post) (done ++ [role])).outputs := by
    show Py.setItem (done.map _) role _ = (done ++ [role]).map _
    rw [Py.setItem_new, List.map_append]
    · rfl
    · simpa using hnew
  have hresults : (Gather.after fns task (pre ++ role :: post) done).toolResults ++ fns.results task role =
      (Gather.after fns task (pre ++ role :: post) (done ++ [role])).toolResults := by
    show done.flatMap _ ++ _ = (done ++ [role]).flatMap _
    rw [List.flatMap_append, List.flatMap_singleton]
  generalize Gather.after fns task (pre ++ role :: post) done = g at *
  generalize Gather.after fns task (pre ++ role :: post) (done ++ [role]) = g' at *
  obtain ⟨roles, outputs, toolResults⟩ := g
  obtain ⟨roles', outputs', toolResults'⟩ := g'
  subst hroles hroles' houtputs hresults
  cases hrunner : fns.toolRunner with
  | none =>
      refine ⟨[pre.length], ?_⟩
      simp [System.exec, TeamFns.roleRuns, TeamFns.resume, TeamFns.results, hat, hset, hrunner]
  | some run =>
      refine ⟨[pre.length, pre.length], ?_⟩
      simp [System.exec, TeamFns.roleRuns, TeamFns.resume, TeamFns.results, hat, hset, hrunner]

/-- **Every order of completions is possible.** -/
theorem exec_after (fns : TeamFns τ) (task : String) (hdistinct : specialists.Nodup) {done : List String}
    (hdone : done.Nodup)
    (hsub : ∀ role ∈ done, role ∈ specialists) :
    ∃ order, (fns.roleRuns task).exec (.start specialists) order = some (.after fns task specialists done) := by
  induction done using List.reverseRecOn with
  | nil => exact ⟨[], by simp [System.exec, Gather.start, Gather.after]⟩
  | append_singleton done role ih =>
      obtain ⟨hdone, -, hnew⟩ := List.nodup_append.mp hdone
      obtain ⟨order, horder⟩ := ih hdone fun role hrole => hsub role (List.mem_append_left _ hrole)
      have hnew : role ∉ done := fun hmem => hnew role hmem role (List.mem_singleton_self _) rfl
      obtain ⟨order', horder'⟩ :=
        exec_role fns task hdistinct (hsub role (List.mem_append_right _ List.mem_cons_self)) hnew
      exact ⟨order ++ order', by rw [System.exec_append, horder, Option.bind_some, horder']⟩

/-- **A gather can yield the answers in any order of the specialists.** -/
theorem exists_gather (fns : TeamFns τ) (task : String) (hdistinct : specialists.Nodup) {answered : List String}
    (h : answered.Perm specialists) :
    ∃ order, fns.gather task specialists order = some (.after fns task specialists answered) := by
  obtain ⟨order, horder⟩ :=
    exec_after fns task hdistinct (h.nodup_iff.mpr hdistinct) fun role => h.mem_iff.mp
  refine ⟨order, ?_⟩
  have hfinished : (Gather.after fns task specialists answered).finished = true := by
    simp [Gather.finished, Gather.after, h.mem_iff]
  rw [TeamFns.gather, horder, Option.filter_some, if_pos hfinished]

/-! ## The run -/

/-- The graph, run node after node along its edges, does what the fallback does. -/
theorem runLanggraphTeam_eq {ainvoke : Option (Node τ → Node τ → Node τ)}
    (hgraph : ∀ invoke ∈ ainvoke, ∀ first second state, invoke first second state = (first state).bind second) :
    fns.runLanggraphTeam ainvoke order task specialists = fns.fallbackParallelTeam order task specialists := by
  cases ainvoke with
  | none => rfl
  | some invoke =>
      show invoke (fns.specialistsNode order) fns.coordinatorNode _ = _
      rw [hgraph invoke rfl]
      unfold TeamFns.specialistsNode TeamFns.fallbackParallelTeam
      cases fns.gather task specialists order with
      | none => rfl
      | some g => rfl

/-- With one specialist there is one order. -/
theorem gather_unique (h : specialists.length ≤ 1) {order' : List ℕ}
    (hg : fns.gather task specialists order = some g)
    (hg' : fns.gather task specialists order' = some g') :
    g.outputs = g'.outputs ∧ g.toolResults = g'.toolResults := by
  have hdistinct : specialists.Nodup := by
    match specialists, h with
    | [], _ => exact List.nodup_nil
    | [role], _ => exact List.nodup_singleton role
  have honly {l : List String} (hl : l.Perm specialists) : l = specialists := by
    match specialists, h with
    | [], _ => exact hl.eq_nil
    | [role], _ => exact List.perm_singleton.mp hl
  obtain ⟨⟨answered, hanswered, houtputs⟩, ended, hended, hresults⟩ := gather_spec hdistinct hg
  obtain ⟨⟨answered', hanswered', houtputs'⟩, ended', hended', hresults'⟩ := gather_spec hdistinct hg'
  rw [houtputs, houtputs', hresults, hresults', honly hanswered, honly hanswered', honly hended, honly hended']
  exact ⟨rfl, rfl⟩

/-- **A team run does not depend on timing exactly if it has at most one specialist.** -/
theorem timeless_iff {ainvoke : Option (Node τ → Node τ → Node τ)}
    (hgraph : ∀ invoke ∈ ainvoke, ∀ first second state, invoke first second state = (first state).bind second)
    (hdistinct : specialists.Nodup) :
    fns.Timeless ainvoke task specialists ↔ specialists.length ≤ 1 := by
  constructor
  · intro htimeless
    by_contra hmany
    obtain ⟨first, second, rest, rfl⟩ : ∃ first second rest, specialists = first :: second :: rest := by
      cases specialists with
      | nil => exact absurd (Nat.zero_le 1) hmany
      | cons first rest =>
          cases rest with
          | nil => exact absurd le_rfl hmany
          | cons second rest => exact ⟨first, second, rest, rfl⟩
    -- the first two specialists answer in their order, or the other way round
    obtain ⟨order, horder⟩ := exists_gather fns task hdistinct (List.Perm.refl _)
    obtain ⟨order', horder'⟩ :=
      exists_gather fns task hdistinct (List.Perm.swap first second rest)
    have hsame := htimeless order order' _ _
      ((runLanggraphTeam_eq hgraph).trans (congrArg (Option.map _) horder))
      ((runLanggraphTeam_eq hgraph).trans (congrArg (Option.map _) horder'))
    have hfirst : first = second := by
      have houtputs := hsame.specialistOutputs
      simp only [Gather.after, List.map_cons, List.cons.injEq, Prod.mk.injEq] at houtputs
      exact houtputs.1.1
    exact (List.nodup_cons.mp hdistinct).1 (hfirst ▸ List.mem_cons_self)
  · intro h order order' final final' hfinal hfinal'
    rw [runLanggraphTeam_eq hgraph] at hfinal hfinal'
    obtain ⟨g, hg, rfl⟩ := Option.map_eq_some_iff.mp hfinal
    obtain ⟨g', hg', rfl⟩ := Option.map_eq_some_iff.mp hfinal'
    obtain ⟨houtputs, hresults⟩ := gather_unique h hg hg'
    rw [houtputs, hresults]
    exact ⟨rfl, rfl, rfl, rfl⟩

/-- The graph as it is run: the specialists, then the coordinator. -/
def alongEdges : Node τ → Node τ → Node τ := fun first second state => (first state).bind second

end

/-- A model that repeats what it is asked. -/
def echo : TeamFns String where
  llmFn _ user := user
  systemPromptForRole role := s!"You are the {role}."
  toolRunner := some fun role output => [s!"{role}: {output}"]

theorem timeless_oneSpecialist : echo.Timeless (some alongEdges) "Name the ship." ["creative"] :=
  (timeless_iff (by rintro _ ⟨⟩ _ _ _; rfl) (by decide)).mpr (by decide)

/-- The two specialists of a run, whose calls complete in some order. -/
def analystAndExecutor (order : List ℕ) : Option (TeamGraphState String) :=
  echo.runLanggraphTeam none order "Name the ship." ["analyst", "executor"]

/-- **The coordinator is told of the executor first when the executor's call completes first.** -/
theorem executor_first : ¬ ∀ (fns : TeamFns String) (ainvoke : Option (Node String → Node String → Node String))
    (task : String) (specialists : List String),
    (∀ invoke ∈ ainvoke, ∀ first second state, invoke first second state = (first state).bind second) →
      specialists.Nodup → fns.Timeless ainvoke task specialists := by
  intro hall
  have htimeless := hall echo none "Name the ship." ["analyst", "executor"] (fun _ h => nomatch h) (by decide)
  have hprompts : ((analystAndExecutor [0, 0, 1, 1]).any fun final =>
      (analystAndExecutor [1, 1, 0, 0]).any fun final' =>
        coordinatorPrompt final ≠ coordinatorPrompt final') = true := by
    decide +kernel
  obtain ⟨final, hfinal, hany⟩ := (Option.any_eq_true ..).mp hprompts
  obtain ⟨final', hfinal', hne⟩ := (Option.any_eq_true ..).mp hany
  exact of_decide_eq_true hne (htimeless _ _ final final' hfinal hfinal').prompt

end Persola.Team
