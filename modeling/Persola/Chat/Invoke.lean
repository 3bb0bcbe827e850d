import Persola.Lib.Runs
import Persola.Persona.Engine
import Persola.Chat.Model

/-!
# `Chat.Invoke` — one turn of a conversation, and which history the model sees

`invokeAgent` is the whole request: session lookup, history window, the user's message, the run row, the
provider calls of the `try` block with their failures, and what is committed in each case. The provider
is the environment (`Llm`): every call it makes may raise.

`inv_of_reachable` is what every run of the chat API keeps: messages are stored in the order of their
timestamps and ids in use are never handed out again.
-/

namespace Persola.Chat

open Agent Persona Runs

/-! ## The environment of an invocation -/

/-- The settings `load_llm_settings` returns, as far as `invoke_agent` reads them. -/
structure LLMSettings where
  provider : String
  resolvedModel : String
  temperature : ℚ
  maxTokens : ℤ

/-- The arguments of `get_llm_provider`. -/
structure ProviderArgs where
  provider : String
  model : String
  temperature : ℚ
  maxTokens : ℤ

/-- A message dictionary handed to the provider. -/
structure ChatMessage where
  role : MessageRole
  content : String
deriving DecidableEq, Repr

/-- What the non-database calls answer; `none` is an exception. -/
structure Llm where
  settings : Option LLMSettings
  getProvider : ProviderArgs → Option String
  isAvailable : Option Bool
  chat : List ChatMessage → String → Option String

/-- The request: the path parameter as text and the id it parses to, and the body. -/
structure InvokeRequest where
  agentId : AgentId
  agentIdText : String
  message : String
  sessionId : Option String

/-- How the request ends. -/
inductive Reply
  | notFound
  | unavailable (provider : String)
  | answered (response provider : String)
  | internalError
  | unhandled
deriving DecidableEq, Repr

/-- All that one request does: the store it commits, the call to `llm.chat` if it gets there, and the
    reply. -/
structure Invocation where
  store : Store
  chat : Option (List ChatMessage × String)
  reply : Reply

/-! ## `invoke_agent` -/

def unavailableMessage : String :=
  "[Persola] No LLM provider available. " ++
    "Open Settings and select Ollama (local) or configure a cloud API key."

def genericErrorMessage : String := "[Persola Error] An internal error has occurred."

/-- The name of the session a request runs in. -/
def runtimeSessionId (req : InvokeRequest) : String :=
  Py.orElse req.sessionId (req.agentIdText ++ "-default")

/-- `{"role": m.role, "content": m.content}`. -/
def toChat (m : MessageModel) : ChatMessage := ⟨m.role, m.content⟩

/-- The arguments `get_llm_provider` is called with. -/
def providerArgs (agent : AgentModel) (settings : LLMSettings) : ProviderArgs where
  provider := if settings.provider = "" then "ollama" else settings.provider
  model := Py.orElse agent.model settings.resolvedModel
  temperature := agent.temperature.getD settings.temperature
  maxTokens := if agent.maxTokens.getD 0 = 0 then settings.maxTokens else agent.maxTokens.getD 0

/-- The system prompt: the agent's own, else the one built from its persona; `none` when the persona
    row does not validate. -/
def systemPromptFor (st : Store) (agent : AgentModel) : Option String :=
  if Py.orElse agent.systemPrompt "" ≠ "" then agent.systemPrompt
  else match agent.personaId.bind st.getPersona with
    | none => some ""
    | some persona => persona.toProfile.map buildSystemPrompt

/-- The `except` branch: the run is marked failed and committed. -/
def failed (st : Store) (run : RunId) (agent : AgentModel)
    (chat : Option (List ChatMessage × String)) (reply : Reply) : Invocation :=
  ⟨st.markCompleted run .failed genericErrorMessage none agent.model, chat, reply⟩

/-- The `try` block, from the provider's construction on, if `prompt` builds the system prompt. -/
def converseWith (prompt : Store → AgentModel → Option String) (st : Store) (agent : AgentModel)
    (session : SessionModel) (run : RunId) (past : List MessageModel) (message : String) (settings : LLMSettings)
    (llm : Llm) (t : Time) : Invocation :=
  match llm.getProvider (providerArgs agent settings), llm.isAvailable with
  | none, _ => failed st run agent none .internalError
  | some _, none => failed st run agent none .internalError
  | some _, some false =>
      ⟨st.markCompleted run .unavailable unavailableMessage
          (some (providerArgs agent settings).provider) agent.model,
        none, .unavailable (providerArgs agent settings).provider⟩
  | some provider, some true =>
    match prompt st agent with
    | none => failed st run agent none .internalError
    | some systemPrompt =>
      -- the whole prompt: the window, then the message of the request
      let messages := past.map toChat ++ [⟨.user, message⟩]
      match llm.chat messages systemPrompt with
      | none => failed st run agent (some (messages, systemPrompt)) .internalError
      | some response =>
          -- only an answer is stored and counted; the user's message stays in every case
          let st := st.addMessage session.id .assistant response (some provider) t
          let st := st.incrementMessageCount session.id t
          ⟨st.markCompleted run .completed response (some provider) agent.model,
            some (messages, systemPrompt), .answered response provider⟩

/-- The `try` block. -/
def converse (st : Store) (agent : AgentModel) (session : SessionModel) (run : RunId)
    (past : List MessageModel) (message : String) (settings : LLMSettings) (llm : Llm) (t : Time) :
    Invocation :=
  converseWith systemPromptFor st agent session run past message settings llm t

/-- `invoke_agent`, if `prompt` builds the system prompt; `t₁` and `t₂` are the clock readings at the two message
    inserts. When `load_llm_settings` raises, the handler's log line reads the unbound `provider_type` after its
    commit, so the request ends in an unhandled error. -/
def invokeAgentWith (prompt : Store → AgentModel → Option String) (st : Store) (req : InvokeRequest) (llm : Llm)
    (t₁ t₂ : Time) : Invocation :=
  match st.getAgent req.agentId with
  | none => ⟨st, none, .notFound⟩
  | some agent =>
      let (session, st) := st.getOrCreate agent.id (runtimeSessionId req)
      -- before the new message is stored
      let pastMessages := st.getHistory session.id 20
      let st := st.addMessage session.id .user req.message none t₁
      let (run, st) := st.createRun agent session.id req.message
      match llm.settings with
      | none => failed st run agent none .unhandled
      | some settings => converseWith prompt st agent session run pastMessages req.message settings llm t₂

/-- `invoke_agent`. -/
def invokeAgent (st : Store) (req : InvokeRequest) (llm : Llm) (t₁ t₂ : Time) : Invocation :=
  invokeAgentWith systemPromptFor st req llm t₁ t₂

/-! ## The conversations that can arise -/

/-- The calls of the chat API; each message write carries the clock's reading. -/
inductive Op
  | createSession (agentId : AgentId) (sessionId : String)
  | appendMessage (sessionId : String) (role : MessageRole) (content : String) (t : Time)
  | invoke (req : InvokeRequest) (llm : Llm) (t₁ t₂ : Time)

/-- `create_session`; an unknown agent (404) or a name in use (409) changes nothing. -/
def createSession (st : Store) (agentId : AgentId) (sessionId : String) : Store :=
  match st.getAgent agentId, st.getBySessionId sessionId with
  | some agent, none => (st.createSession agent.id sessionId).2
  | _, _ => st

/-- `append_message`; an unknown session (404) changes nothing. -/
def appendMessage (st : Store) (sessionId : String) (role : MessageRole) (content : String)
    (t : Time) : Store :=
  match st.getBySessionId sessionId with
  | none => st
  | some session =>
      (st.addMessage session.id role content none t).incrementMessageCount session.id t

/-- One call; the clock readings are strictly increasing. -/
def step (st : Store) : Op → Option Store
  | .createSession agentId sessionId => some (createSession st agentId sessionId)
  | .appendMessage sessionId role content t =>
      if st.now < t then some (appendMessage st sessionId role content t) else none
  | .invoke req llm t₁ t₂ =>
      if st.now < t₁ ∧ t₁ < t₂ then some (invokeAgent st req llm t₁ t₂).store else none

/-- The chat API on a database with any agents and personas and no conversation yet. -/
def system : System Store Op where
  init st := st.sessions = [] ∧ st.messages = [] ∧ st.runs = []
  step := step

/-! ## What holds of every conversation

Messages are stored in the order of their timestamps, and every session id in use lies below the next
fresh one (so a session created on the fly starts without history). -/

/-- The invariant of the tables. -/
structure Store.Inv (st : Store) : Prop where
  ordered : st.messages.Pairwise fun a b => a.createdAt < b.createdAt
  bounded : ∀ m ∈ st.messages, m.createdAt ≤ st.now
  sessionsFresh : ∀ s ∈ st.sessions, s.id < st.fresh
  messagesFresh : ∀ m ∈ st.messages, m.sessionId < st.fresh

theorem Store.Inv.addMessage {st : Store} (h : st.Inv) {id : SessionId} (hid : id < st.fresh)
    (role : MessageRole) (content : String) (p : Option String) {t : Time} (ht : st.now < t) :
    (st.addMessage id role content p t).Inv where
  ordered := by
    refine List.pairwise_append.mpr ⟨h.ordered, List.pairwise_singleton _ _, ?_⟩
    intro a ha b hb
    obtain rfl := List.mem_singleton.mp hb
    exact lt_of_le_of_lt (h.bounded a ha) ht
  bounded := by
    intro m hm
    rcases List.mem_append.mp hm with hm | hm
    · exact ((h.bounded m hm).trans_lt ht).le
    · obtain rfl := List.mem_singleton.mp hm
      exact le_rfl
  sessionsFresh := fun s hs => Nat.lt_succ_of_lt (h.sessionsFresh s hs)
  messagesFresh := by
    intro m hm
    rcases List.mem_append.mp hm with hm | hm
    · exact Nat.lt_succ_of_lt (h.messagesFresh m hm)
    · obtain rfl := List.mem_singleton.mp hm
      exact Nat.lt_succ_of_lt hid

theorem Store.Inv.incrementMessageCount {st : Store} (h : st.Inv) (id : SessionId) (t : Time) :
    (st.incrementMessageCount id t).Inv where
  ordered := h.ordered
  bounded := h.bounded
  sessionsFresh := by
    intro s hs
    obtain ⟨s₀, hs₀, rfl⟩ := List.mem_map.mp hs
    have hlt := h.sessionsFresh s₀ hs₀
    split <;> exact hlt
  messagesFresh := h.messagesFresh

theorem Store.Inv.markCompleted {st : Store} (h : st.Inv) (id : RunId) (s : AgentRunStatus)
    (r : String) (p m : Option String) : (st.markCompleted id s r p m).Inv :=
  ⟨h.ordered, h.bounded, h.sessionsFresh, h.messagesFresh⟩

theorem Store.Inv.createRun {st : Store} (h : st.Inv) (a : AgentModel) (id : SessionId)
    (m : String) : (st.createRun a id m).2.Inv :=
  ⟨h.ordered, h.bounded, fun s hs => Nat.lt_succ_of_lt (h.sessionsFresh s hs),
    fun m hm => Nat.lt_succ_of_lt (h.messagesFresh m hm)⟩

theorem Store.Inv.createSession {st : Store} (h : st.Inv) (a : AgentId) (name : String) :
    (st.createSession a name).2.Inv where
  ordered := h.ordered
  bounded := h.bounded
  sessionsFresh := by
    intro s hs
    rcases List.mem_append.mp hs with hs | hs
    · exact Nat.lt_succ_of_lt (h.sessionsFresh s hs)
    · obtain rfl := List.mem_singleton.mp hs
      exact Nat.lt_succ_self _
  messagesFresh := fun m hm => Nat.lt_succ_of_lt (h.messagesFresh m hm)

theorem Store.mem_of_getBySessionId {st : Store} {name : String} {s : SessionModel}
    (h : st.getBySessionId name = some s) : s ∈ st.sessions := List.mem_of_find?_eq_some h

/-- `get_or_create` keeps the invariant, returns a session with an id in use and touches no message. -/
theorem Store.Inv.getOrCreate {st : Store} (h : st.Inv) (a : AgentId) (name : String) :
    (st.getOrCreate a name).2.Inv ∧ (st.getOrCreate a name).1.id < (st.getOrCreate a name).2.fresh ∧
      (st.getOrCreate a name).2.messages = st.messages ∧
      (st.getOrCreate a name).2.now = st.now := by
  unfold Store.getOrCreate
  cases hs : st.getBySessionId name with
  | some s => exact ⟨h, h.sessionsFresh s (Store.mem_of_getBySessionId hs), rfl, rfl⟩
  | none => exact ⟨h.createSession a name, Nat.lt_succ_self _, rfl, rfl⟩

/-- The `try` block keeps the invariant. -/
theorem Store.Inv.converse {st : Store} (h : st.Inv) (agent : AgentModel) {session : SessionModel}
    (hid : session.id < st.fresh) (run : RunId) (past : List MessageModel) (message : String)
    (settings : LLMSettings) (llm : Llm) {t : Time} (ht : st.now < t) :
    (converse st agent session run past message settings llm t).store.Inv := by
  unfold Chat.converse converseWith
  split
  · exact h.markCompleted ..
  · exact h.markCompleted ..
  · exact h.markCompleted ..
  · split
    · exact h.markCompleted ..
    · dsimp only
      split
      · exact h.markCompleted ..
      · exact ((h.addMessage hid .assistant _ _ ht).incrementMessageCount _ _).markCompleted ..

/-- One request keeps the invariant, however its provider calls go. -/
theorem Store.Inv.invokeAgent {st : Store} (h : st.Inv) (req : InvokeRequest) (llm : Llm)
    {t₁ t₂ : Time} (h1 : st.now < t₁) (h2 : t₁ < t₂) :
    (invokeAgent st req llm t₁ t₂).store.Inv := by
  unfold Chat.invokeAgent invokeAgentWith
  cases st.getAgent req.agentId with
  | none => exact h
  | some agent =>
      obtain ⟨hinv, hid, -, hnow⟩ := h.getOrCreate agent.id (runtimeSessionId req)
      have hadd := hinv.addMessage hid .user req.message none (t := t₁) (by rw [hnow]; exact h1)
      have hrun := hadd.createRun agent (st.getOrCreate agent.id (runtimeSessionId req)).1.id
        req.message
      dsimp only
      cases llm.settings with
      | none => exact hrun.markCompleted ..
      | some settings =>
          exact hrun.converse agent (Nat.lt_succ_of_lt (Nat.lt_succ_of_lt hid)) _ _ _ _ _ h2

/-- **Every reachable store satisfies the invariant.** -/
theorem inv_of_reachable {st : Store} (h : system.Reachable st) : st.Inv := by
  refine h.invariant ?_ ?_
  · rintro st ⟨hs, hm, -⟩
    exact ⟨by rw [hm]; exact .nil, by simp [hm], by simp [hs], by simp [hm]⟩
  · intro st op st' hI _ hstep
    cases op with
    | createSession a name =>
        obtain rfl := Option.some.inj hstep
        unfold Chat.createSession
        split
        · exact hI.createSession _ _
        · exact hI
    | appendMessage name role content t =>
        simp only [system, step, Option.ite_none_right_eq_some, Option.some.injEq] at hstep
        obtain ⟨ht, rfl⟩ := hstep
        unfold Chat.appendMessage
        cases hs : st.getBySessionId name with
        | none => exact hI
        | some s =>
            exact (hI.addMessage (hI.sessionsFresh s (Store.mem_of_getBySessionId hs)) role content
              none ht).incrementMessageCount _ _
    | invoke req llm t₁ t₂ =>
        simp only [system, step, Option.ite_none_right_eq_some, Option.some.injEq] at hstep
        obtain ⟨⟨h1, h2⟩, rfl⟩ := hstep
        exact hI.invokeAgent req llm h1 h2

end Persola.Chat
