import Persola.Lib.Select
import Persola.Agent.Model

/-!
# `Chat.Model` — sessions, messages and agent runs, and the repositories over them

The tables behind `invoke_agent`. Rows get fresh ids from one counter; a message also gets the reading
of the clock at which its `INSERT` is flushed.
-/

namespace Persola.Chat

open Agent Persona

abbrev SessionId := ℕ
abbrev MessageId := ℕ
abbrev RunId := ℕ
abbrev Time := ℕ

inductive MessageRole
  | user | assistant | system | tool
deriving DecidableEq, Repr

inductive AgentRunStatus
  | pending | running | completed | failed | unavailable
deriving DecidableEq, Repr

/-- A row of `sessions`: `id` is the primary key, `sessionId` the external, unique name. -/
structure SessionModel where
  id : SessionId
  agentId : AgentId
  sessionId : String
  messageCount : ℕ := 0
  lastMessageAt : Option Time := none
deriving DecidableEq, Repr

/-- A row of `messages`; `provider` is the metadata stored with an assistant's message. -/
structure MessageModel where
  id : MessageId
  sessionId : SessionId
  role : MessageRole
  content : String
  provider : Option String := none
  createdAt : Time
deriving DecidableEq, Repr

/-- A row of `agent_runs`. -/
structure AgentRunModel where
  id : RunId
  agentId : AgentId
  sessionId : SessionId
  status : AgentRunStatus
  requestMessage : String
  responseMessage : Option String := none
  provider : Option String := none
  model : Option String
deriving DecidableEq, Repr

/-- The tables; `now` is the last clock reading used and `fresh` the next unused id. -/
structure Store where
  agents : List AgentModel
  personas : List PersonaModel
  sessions : List SessionModel
  messages : List MessageModel
  runs : List AgentRunModel
  now : Time
  fresh : ℕ

namespace Store

/-- `AgentRepository.get`. -/
def getAgent (st : Store) (id : AgentId) : Option AgentModel := st.agents.find? (·.id = id)

/-- `PersonaRepository.get`. -/
def getPersona (st : Store) (id : PersonaId) : Option PersonaModel :=
  st.personas.find? (·.id = id)

/-! ## Sessions -/

/-- `SessionRepository.get_by_session_id`. -/
def getBySessionId (st : Store) (sessionId : String) : Option SessionModel :=
  st.sessions.find? (·.sessionId = sessionId)

/-- `SessionRepository.create`. -/
def createSession (st : Store) (agentId : AgentId) (sessionId : String) : SessionModel × Store :=
  let session : SessionModel := { id := st.fresh, agentId, sessionId }
  (session, { st with sessions := st.sessions ++ [session], fresh := st.fresh + 1 })

/-- `SessionRepository.get_or_create`: a session found by its name is returned whatever agent it
    belongs to. -/
def getOrCreate (st : Store) (agentId : AgentId) (sessionId : String) : SessionModel × Store :=
  match st.getBySessionId sessionId with
  | some existing => (existing, st)
  | none => st.createSession agentId sessionId

/-- `SessionRepository.increment_message_count`. -/
def incrementMessageCount (st : Store) (id : SessionId) (now : Time) : Store :=
  { st with sessions := st.sessions.map fun s =>
      if s.id = id then { s with messageCount := s.messageCount + 1, lastMessageAt := some now }
      else s }

/-! ## Messages -/

/-- `MessageRepository.add`. -/
def addMessage (st : Store) (sessionId : SessionId) (role : MessageRole) (content : String)
    (provider : Option String) (now : Time) : Store :=
  { st with
    messages := st.messages ++
      [{ id := st.fresh, sessionId, role, content, provider, createdAt := now }]
    fresh := st.fresh + 1
    now }

/-- The stored messages of a session, in the order they were stored. -/
def stored (st : Store) (id : SessionId) : List MessageModel :=
  st.messages.filter (·.sessionId = id)

/-- `MessageRepository.get_history`: `ORDER BY created_at ASC LIMIT limit`. -/
def getHistory (st : Store) (id : SessionId) (limit : ℕ := 50) : List MessageModel :=
  (Select.orderBy (·.createdAt) (st.stored id)).take limit

/-- `MessageRepository.get_recent`: `ORDER BY created_at DESC LIMIT n`. -/
def getRecent (st : Store) (id : SessionId) (n : ℕ) : List MessageModel :=
  (Select.orderByDesc (·.createdAt) (st.stored id)).take n

/-! ## Agent runs -/

/-- `AgentRunRepository.create` with the row `invoke_agent` builds. -/
def createRun (st : Store) (agent : AgentModel) (sessionId : SessionId) (message : String) :
    RunId × Store :=
  let run : AgentRunModel :=
    { id := st.fresh, agentId := agent.id, sessionId, status := .running,
      requestMessage := message, model := agent.model }
  (run.id, { st with runs := st.runs ++ [run], fresh := st.fresh + 1 })

/-- `AgentRunRepository.mark_completed`. -/
def markCompleted (st : Store) (id : RunId) (status : AgentRunStatus) (responseMessage : String)
    (provider model : Option String) : Store :=
  { st with runs := st.runs.map fun r =>
      if r.id = id then { r with status, responseMessage := some responseMessage, provider, model }
      else r }

end Store

end Persola.Chat
