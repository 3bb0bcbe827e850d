import Persola.Chat.Invoke

/-!
# `Chat.Exits` — how an invocation ends when a step of it raises

Three exits of `invoke_agent` complete the run, and each of them commits: the run row and the user's message are
there whatever the steps of the `try` block do, and an answer is stored exactly with a completed run. Only the
handler itself reads a variable that the block may not have bound yet (`concludes_iff`).
-/

namespace Persola.Chat

open Agent Persona

/-! ## Every step may raise -/

/-- The non-database steps of the `try` block; `none` is an exception, for building the prompt too. -/
structure Steps extends Llm where
  buildPrompt : PersonaProfile → Option String

/-- The steps when building a prompt does not raise. -/
def Llm.steps (llm : Llm) : Steps := { llm with buildPrompt := fun profile => some (buildSystemPrompt profile) }

/-- `systemPromptFor`, with a prompt builder that may raise. -/
def promptBy (steps : Steps) (st : Store) (agent : AgentModel) : Option String :=
  if Py.orElse agent.systemPrompt "" ≠ "" then agent.systemPrompt
  else match agent.personaId.bind st.getPersona with
    | none => some ""
    | some persona => persona.toProfile.bind steps.buildPrompt

/-- `invoke_agent`, with a prompt builder that may raise. -/
def invokeAgentBy (st : Store) (req : InvokeRequest) (steps : Steps) (t₁ t₂ : Time) : Invocation :=
  invokeAgentWith (promptBy steps) st req steps.toLlm t₁ t₂

theorem promptBy_steps (llm : Llm) (st : Store) (agent : AgentModel) :
    promptBy llm.steps st agent = systemPromptFor st agent := by
  unfold promptBy systemPromptFor
  split
  · rfl
  · cases agent.personaId.bind st.getPersona with
    | none => rfl
    | some persona => exact (Option.map_eq_bind ..).symm

/-- **The same request** when building the prompt does not raise. -/
theorem invokeAgentBy_steps (st : Store) (req : InvokeRequest) (llm : Llm) (t₁ t₂ : Time) :
    invokeAgentBy st req llm.steps t₁ t₂ = invokeAgent st req llm t₁ t₂ := by
  unfold invokeAgentBy invokeAgent
  rw [show promptBy llm.steps = systemPromptFor from funext₂ (promptBy_steps llm)]
  rfl

/-! ## What should be there afterwards -/

/-- The `response` of the body, if there is a body. -/
def Reply.response : Reply → Option String
  | .unavailable _ => some unavailableMessage
  | .answered response _ => some response
  | .internalError => some genericErrorMessage
  | .notFound | .unhandled => none

/-- A run in one of these is over. -/
def AgentRunStatus.Terminal (status : AgentRunStatus) : Prop :=
  status = .completed ∨ status = .failed ∨ status = .unavailable

/-- What an invocation leaves: the message of the user, what else was said, and the run. -/
structure Leaves (st : Store) (agent : AgentModel) (req : InvokeRequest) (inv : Invocation)
    (user : MessageModel) (said : List MessageModel) (rows : List AgentRunModel) (run : AgentRunModel) : Prop where
  messages : inv.store.messages = st.messages ++ user :: said
  asked : user.role = .user ∧ user.content = req.message
  session : ∀ m ∈ user :: said, m.sessionId = (st.getOrCreate agent.id (runtimeSessionId req)).1.id
  runs : inv.store.runs = rows ++ [run]
  one : rows.length = st.runs.length
  frame : (∀ r ∈ st.runs, r.id ≠ run.id) → rows = st.runs
  logged : run.agentId = agent.id ∧ run.requestMessage = req.message ∧
    run.sessionId = (st.getOrCreate agent.id (runtimeSessionId req)).1.id
  terminal : run.status.Terminal
  completed : run.status = .completed ↔ ∃ m ∈ said, m.role = .assistant ∧ inv.reply.response = some m.content

/-- **The request concludes properly**: it has a body, and one run that is over and goes with what was stored. -/
def Concludes (st : Store) (agent : AgentModel) (req : InvokeRequest) (inv : Invocation) : Prop :=
  inv.reply.response.isSome ∧ ∃ user said rows run, Leaves st agent req inv user said rows run

section
variable {st u : Store} {agent : AgentModel} {req : InvokeRequest} {steps : Steps} {t₁ t₂ : Time}

/-- Opening the session leaves messages and runs. -/
theorem getOrCreate_tables (st : Store) (a : AgentId) (name : String) :
    (st.getOrCreate a name).2.messages = st.messages ∧ (st.getOrCreate a name).2.runs = st.runs := by
  unfold Store.getOrCreate
  split
  · exact ⟨rfl, rfl⟩
  · exact ⟨rfl, rfl⟩

/-- The store in the `try` block: the user's message is stored and the run is running. -/
structure Running (st u : Store) (agent : AgentModel) (req : InvokeRequest) (run : AgentRunModel) : Prop where
  messages : ∃ user, u.messages = st.messages ++ [user] ∧ user.role = .user ∧ user.content = req.message ∧
    user.sessionId = (st.getOrCreate agent.id (runtimeSessionId req)).1.id
  runs : u.runs = st.runs ++ [run]
  logged : run.agentId = agent.id ∧ run.requestMessage = req.message ∧
    run.sessionId = (st.getOrCreate agent.id (runtimeSessionId req)).1.id

/-- **Completing the run** settles what the request leaves, with whatever was said in between. -/
theorem Running.leaves {run : AgentRunModel} (h : Running st u agent req run) (w : Store)
    (said : List MessageModel) (hmessages : w.messages = u.messages ++ said) (hruns : w.runs = u.runs)
    (hsession : ∀ m ∈ said, m.sessionId = (st.getOrCreate agent.id (runtimeSessionId req)).1.id)
    {status : AgentRunStatus} (hterminal : status.Terminal) {text : String} {provider : Option String}
    {chat : Option (List ChatMessage × String)} {reply : Reply}
    (hcompleted : status = .completed ↔ ∃ m ∈ said, m.role = .assistant ∧ reply.response = some m.content) :
    ∃ user said rows run', Leaves st agent req
      ⟨w.markCompleted run.id status text provider agent.model, chat, reply⟩ user said rows run' := by
  obtain ⟨user, huser, hrole, hcontent, hid⟩ := h.messages
  refine ⟨user, said, st.runs.map fun r => if r.id = run.id then
      { r with status, responseMessage := some text, provider, model := agent.model } else r,
    { run with status, responseMessage := some text, provider, model := agent.model }, ?_⟩
  refine ⟨?_, ⟨hrole, hcontent⟩, ?_, ?_, List.length_map .., fun hfresh => ?_, h.logged, hterminal, hcompleted⟩
  · show w.messages = _
    rw [hmessages, huser, List.append_assoc]
    rfl
  · exact List.forall_mem_cons.mpr ⟨hid, hsession⟩
  · show w.runs.map _ = _
    rw [hruns, h.runs, List.map_append, List.map_singleton, if_pos rfl]
  · exact (List.map_congr_left fun r hr => if_neg (hfresh r hr)).trans (List.map_id _)

/-- The `except` branch leaves what it should. -/
theorem Running.failed_leaves {run : AgentRunModel} (h : Running st u agent req run)
    (chat : Option (List ChatMessage × String)) (reply : Reply) :
    ∃ user said rows run', Leaves st agent req (failed u run.id agent chat reply) user said rows run' :=
  h.leaves u [] (List.append_nil _).symm rfl (List.forall_mem_nil _) (.inr (.inl rfl))
    (iff_of_false (fun h => by cases h) (by simp))

/-- **The `try` block concludes** at each of its exits, whatever step raises. -/
theorem Running.converse_concludes {run : AgentRunModel} (h : Running st u agent req run) {session : SessionModel}
    (hsession : session.id = (st.getOrCreate agent.id (runtimeSessionId req)).1.id) (past : List MessageModel)
    (settings : LLMSettings) : Concludes st agent req
      (converseWith (promptBy steps) u agent session run.id past req.message settings steps.toLlm t₂) := by
  unfold converseWith
  split
  · exact ⟨rfl, h.failed_leaves _ _⟩
  · exact ⟨rfl, h.failed_leaves _ _⟩
  · refine ⟨rfl, h.leaves u [] (List.append_nil _).symm rfl (List.forall_mem_nil _) (.inr (.inr rfl)) ?_⟩
    exact iff_of_false (fun h => by cases h) (by simp)
  · split
    · exact ⟨rfl, h.failed_leaves _ _⟩
    · dsimp only
      split
      · exact ⟨rfl, h.failed_leaves _ _⟩
      · refine ⟨rfl, h.leaves (Store.incrementMessageCount (u.addMessage session.id .assistant _ _ t₂) session.id t₂)
          [_] rfl rfl ?_ (.inl rfl) ?_⟩
        · exact fun m hm => by rw [List.mem_singleton.mp hm, ← hsession]
        · exact iff_of_true rfl ⟨_, List.mem_singleton_self _, rfl, rfl⟩

/-- **A request concludes properly exactly if the settings can be loaded.** -/
theorem concludes_iff (hagent : st.getAgent req.agentId = some agent) (steps : Steps) (t₁ t₂ : Time) :
    Concludes st agent req (invokeAgentBy st req steps t₁ t₂) ↔ steps.settings.isSome := by
  obtain ⟨hmessages, hruns⟩ := getOrCreate_tables st agent.id (runtimeSessionId req)
  let session := (st.getOrCreate agent.id (runtimeSessionId req)).1
  let opened := (st.getOrCreate agent.id (runtimeSessionId req)).2
  let asked := opened.addMessage session.id .user req.message none t₁
  have hrunning : Running st (asked.createRun agent session.id req.message).2 agent req
      { id := asked.fresh, agentId := agent.id, sessionId := session.id, status := .running,
        requestMessage := req.message, model := agent.model } := by
    refine ⟨⟨_, congrArg (· ++ _) hmessages, rfl, rfl, rfl⟩, congrArg (· ++ _) hruns, rfl, rfl, rfl⟩
  unfold invokeAgentBy invokeAgentWith
  rw [hagent]
  cases steps.settings with
  | none => exact iff_of_false (fun h => by cases h.1) (by simp)
  | some settings => exact iff_of_true (hrunning.converse_concludes rfl _ settings) rfl

end

/-! ## Two failures -/

/-- A database with one agent and no persona. -/
def oneAgent : Store where
  agents := [{ id := 1, name := "Ada", model := none, systemPrompt := none, personaId := none }]
  personas := []
  sessions := []
  messages := []
  runs := []
  now := 0
  fresh := 2

/-- A question for the agent. -/
def helloAda : InvokeRequest := ⟨1, "1", "hello", none⟩

/-- The provider is up, and raises when it is asked. -/
def raising : Steps where
  settings := some ⟨"", "llama3:8b", 7/10, 2000⟩
  getProvider := fun _ => some "ollama"
  isAvailable := some true
  chat := fun _ _ => none
  buildPrompt := fun _ => none

theorem concludes_raising : Concludes oneAgent
    { id := 1, name := "Ada", model := none, systemPrompt := none, personaId := none } helloAda
    (invokeAgentBy oneAgent helloAda raising 1 2) :=
  (concludes_iff rfl raising 1 2).mpr rfl

/-- **The settings file does not validate**: the run is failed and committed, and there is no body. -/
theorem unhandled_without_settings : ¬ ∀ st agent req steps t₁ t₂, st.getAgent req.agentId = some agent →
    Concludes st agent req (invokeAgentBy st req steps t₁ t₂) := by
  intro hall
  have hanswers := (hall oneAgent _ helloAda { raising with settings := none } 1 2 rfl).1
  cases hanswers

end Persola.Chat
