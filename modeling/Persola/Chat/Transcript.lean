import Persola.Lib.Table
import Persola.Chat.Window

/-!
# `Chat.Transcript` — what a call says, and in which session

Seen from outside a store is who owns which session name and what was said in it (`owner`, `transcript`).
Every call of the chat API says something at the end of one session and leaves the others alone (`Says`),
and an invocation asks the provider about the head of the transcript of its session (`invokeAgent_asked`).
-/

namespace Persola.Chat

open Agent Persona Runs

namespace Store

/-- The agent the session of this name was created for. -/
def owner (st : Store) (name : String) : Option AgentId := (st.getBySessionId name).map (·.agentId)

/-- What was said in the session of this name, oldest first. -/
def transcript (st : Store) (name : String) : List ChatMessage := (conversation st name).map toChat

/-- The ids of the sessions. -/
def sessionIds (st : Store) : List SessionId := st.sessions.map (·.id)

variable {st r t : Store} {name : String} {said said' : List ChatMessage}

theorem transcript_of_some {s : SessionModel} (h : st.getBySessionId name = some s) :
    st.transcript name = (st.stored s.id).map toChat := by
  rw [transcript, conversation, h]

theorem transcript_of_none (h : st.getBySessionId name = none) : st.transcript name = [] := by
  rw [transcript, conversation, h, List.map_nil]

theorem name_of_getBySessionId {s : SessionModel} (h : st.getBySessionId name = some s) :
    s.sessionId = name := Table.key_of_find? h

/-! ## What is said -/

/-- `t` is `st` after `said` was said in the session `name`; nothing else of it can be seen. -/
structure Says (st t : Store) (name : String) (said : List ChatMessage) : Prop where
  agents : t.agents = st.agents
  personas : t.personas = st.personas
  sessionIds : t.sessionIds = st.sessionIds
  owner : ∀ n, t.owner n = st.owner n
  transcript : ∀ n, t.transcript n = st.transcript n ++ if n = name then said else []

theorem Says.refl (st : Store) (name : String) : st.Says st name [] where
  agents := rfl
  personas := rfl
  sessionIds := rfl
  owner := fun _ => rfl
  transcript := by simp

theorem Says.trans (h : st.Says r name said) (h' : r.Says t name said') :
    st.Says t name (said ++ said') where
  agents := h'.agents.trans h.agents
  personas := h'.personas.trans h.personas
  sessionIds := h'.sessionIds.trans h.sessionIds
  owner := fun n => (h'.owner n).trans (h.owner n)
  transcript := by
    intro n
    rw [h'.transcript, h.transcript, List.append_assoc]
    split <;> rfl

/-- Sessions that differ in name differ in id. -/
theorem ne_of_name_ne (hids : st.sessionIds.Nodup) {s s' : SessionModel} {name' : String}
    (h : st.getBySessionId name = some s) (h' : st.getBySessionId name' = some s') (hne : name' ≠ name) :
    s'.id ≠ s.id := by
  intro hid
  have hs : s' = s :=
    List.inj_on_of_nodup_map hids (mem_of_getBySessionId h') (mem_of_getBySessionId h) hid
  exact hne (by rw [← name_of_getBySessionId h', ← name_of_getBySessionId h, hs])

/-- A message stored in a session is said there. -/
theorem addMessage_said (hids : st.sessionIds.Nodup) {s : SessionModel}
    (hs : st.getBySessionId name = some s) (role : MessageRole) (content : String)
    (provider : Option String) (now : Time) :
    st.Says (st.addMessage s.id role content provider now) name [⟨role, content⟩] where
  agents := rfl
  personas := rfl
  sessionIds := rfl
  owner := fun _ => rfl
  transcript := by
    intro n
    cases hn : st.getBySessionId n with
    | none =>
        have hne : n ≠ name := fun heq => by rw [heq, hs] at hn; cases hn
        rw [transcript_of_none hn, if_neg hne]
        exact transcript_of_none hn
    | some s' =>
        have hn' : (st.addMessage s.id role content provider now).getBySessionId n = some s' := hn
        rw [transcript_of_some hn, transcript_of_some hn']
        by_cases heq : n = name
        · subst heq
          obtain rfl : s = s' := Option.some.inj (hs.symm.trans hn)
          simp [stored, addMessage, toChat]
        · have hne : s.id ≠ s'.id := (ne_of_name_ne hids hs hn heq).symm
          simp [stored, addMessage, heq, hne]

/-- Counting a message is not seen. -/
theorem incrementMessageCount_said (id : SessionId) (now : Time) :
    st.Says (st.incrementMessageCount id now) name [] := by
  have hget : ∀ n, (st.incrementMessageCount id now).getBySessionId n =
      (st.getBySessionId n).map fun s =>
        if s.id = id then { s with messageCount := s.messageCount + 1, lastMessageAt := some now }
        else s := fun n => by
    have hkey : ∀ s : SessionModel, (if s.id = id then
        { s with messageCount := s.messageCount + 1, lastMessageAt := some now } else s).sessionId =
          s.sessionId := fun s => by
      split <;> rfl
    exact Table.find?_mapRows hkey
  refine ⟨rfl, rfl, ?_, fun n => ?_, fun n => ?_⟩
  · simp only [sessionIds, incrementMessageCount, List.map_map]
    refine List.map_congr_left fun s _ => ?_
    simp only [Function.comp_apply]
    split <;> rfl
  · rw [owner, hget, Option.map_map, owner]
    congr 1
    funext s
    simp only [Function.comp_apply]
    split <;> rfl
  · rw [ite_self, List.append_nil]
    cases hn : st.getBySessionId n with
    | none =>
        have hnone := hget n
        rw [hn, Option.map_none] at hnone
        rw [transcript_of_none hn, transcript_of_none hnone]
    | some s =>
        have hsome := hget n
        rw [hn, Option.map_some] at hsome
        rw [transcript_of_some hn, transcript_of_some hsome]
        split <;> rfl

/-- So are the rows of `agent_runs`. -/
theorem createRun_said (agent : AgentModel) (id : SessionId) (message : String) :
    st.Says (st.createRun agent id message).2 name [] := by
  refine ⟨rfl, rfl, rfl, fun _ => rfl, fun n => ?_⟩
  rw [ite_self, List.append_nil]
  rfl

theorem markCompleted_said (id : RunId) (status : AgentRunStatus) (response : String)
    (provider model : Option String) :
    st.Says (st.markCompleted id status response provider model) name [] := by
  refine ⟨rfl, rfl, rfl, fun _ => rfl, fun n => ?_⟩
  rw [ite_self, List.append_nil]
  rfl

/-! ## New sessions -/

/-- `t` is `st` with a session `name` for the agent `a`, if there was none. -/
structure Opens (st t : Store) (name : String) (a : AgentId) : Prop where
  agents : t.agents = st.agents
  personas : t.personas = st.personas
  owner : ∀ n, t.owner n = if n = name then some ((st.owner n).getD a) else st.owner n
  transcript : ∀ n, t.transcript n = st.transcript n

theorem createSession_opens (hst : st.Inv) (hnone : st.getBySessionId name = none) (a : AgentId) :
    st.Opens (st.createSession a name).2 name a where
  agents := rfl
  personas := rfl
  owner := by
    intro n
    by_cases hn : n = name
    · subst hn
      have hfind : st.sessions.find? (fun s => s.sessionId = n) = none := hnone
      simp [owner, createSession, getBySessionId, List.find?_append, hfind]
    · rw [if_neg hn]
      simp [owner, createSession, getBySessionId, List.find?_append, Ne.symm hn]
  transcript := by
    intro n
    by_cases hn : n = name
    · subst hn
      have hempty := hst.stored_getOrCreate a n
      have hnew : (st.createSession a n).2.getBySessionId n = some (st.createSession a n).1 := by
        have hfind : st.sessions.find? (fun s => s.sessionId = n) = none := hnone
        simp [createSession, getBySessionId, List.find?_append, hfind]
      rw [getOrCreate, hnone] at hempty
      rw [transcript_of_some hnew, hempty, transcript]
    · have hsame : (st.createSession a name).2.getBySessionId n = st.getBySessionId n := by
        simp [createSession, getBySessionId, List.find?_append, Ne.symm hn]
      rw [transcript, conversation, hsame, transcript, conversation]
      rfl

/-- `get_or_create` opens the session and returns it. -/
theorem getOrCreate_opens (hst : st.Inv) (a : AgentId) (name : String) :
    st.Opens (st.getOrCreate a name).2 name a ∧
      (st.getOrCreate a name).2.getBySessionId name = some (st.getOrCreate a name).1 := by
  unfold getOrCreate
  cases hs : st.getBySessionId name with
  | none =>
      refine ⟨createSession_opens hst hs a, ?_⟩
      have hfind : st.sessions.find? (fun s => s.sessionId = name) = none := hs
      simp [createSession, getBySessionId, List.find?_append, hfind]
  | some s =>
      refine ⟨⟨rfl, rfl, fun n => ?_, fun _ => rfl⟩, hs⟩
      show st.owner n = _
      by_cases hn : n = name
      · rw [if_pos hn, hn, owner, hs, Option.map_some, Option.getD_some]
      · rw [if_neg hn]

/-- Session ids stay distinct. -/
theorem getOrCreate_sessionIds (hst : st.Inv) (hids : st.sessionIds.Nodup) (a : AgentId) (name : String) :
    (st.getOrCreate a name).2.sessionIds.Nodup := by
  unfold getOrCreate
  cases hs : st.getBySessionId name with
  | some s => exact hids
  | none =>
      show (st.sessions ++ [_]).map SessionModel.id |>.Nodup
      rw [List.map_append, List.map_singleton]
      refine hids.append (List.nodup_singleton _) ?_
      rw [List.disjoint_singleton]
      intro hmem
      obtain ⟨s, hmem, hid⟩ := List.mem_map.mp hmem
      exact (hst.sessionsFresh s hmem).ne hid

end Store

/-! ## An invocation -/

/-- What the provider is asked, given the history the request read. -/
def asked (st : Store) (req : InvokeRequest) (llm : Llm) (past : List ChatMessage) :
    Option (List ChatMessage × String) :=
  match st.getAgent req.agentId, llm.settings with
  | some agent, some settings =>
      match llm.getProvider (providerArgs agent settings), llm.isAvailable, systemPromptFor st agent with
      | some _, some true, some prompt => some (past ++ [⟨.user, req.message⟩], prompt)
      | _, _, _ => none
  | _, _ => none

/-- What a request adds to the transcript: the message, and the provider's answer if there is one. -/
def exchange (st : Store) (req : InvokeRequest) (llm : Llm) (past : List ChatMessage) :
    List ChatMessage :=
  ⟨.user, req.message⟩ ::
    (((asked st req llm past).bind fun call => llm.chat call.1 call.2).map
      fun answer => ⟨.assistant, answer⟩).toList

section
variable {st t : Store} {req : InvokeRequest} {llm : Llm} {t₁ t₂ : Time}

/-- What is asked depends on agents, personas and the history only. -/
theorem asked_congr (hagents : t.agents = st.agents) (hpersonas : t.personas = st.personas)
    (past : List ChatMessage) : asked t req llm past = asked st req llm past := by
  have hagent : t.getAgent req.agentId = st.getAgent req.agentId := by
    rw [Store.getAgent, hagents, Store.getAgent]
  have hprompt : ∀ agent, systemPromptFor t agent = systemPromptFor st agent := by
    have hpersona : t.getPersona = st.getPersona := by
      funext i
      rw [Store.getPersona, hpersonas, Store.getPersona]
    intro agent
    rw [systemPromptFor, hpersona, systemPromptFor]
  simp only [asked, hagent, hprompt]

/-- The `try` block asks the provider about the given history, and says the answer in its session. -/
theorem converse_said (t₂ : Time) (hids : st.sessionIds.Nodup) {session : SessionModel} {name : String}
    (hs : st.getBySessionId name = some session) {agent : AgentModel} {settings : LLMSettings}
    (hagent : st.getAgent req.agentId = some agent) (hset : llm.settings = some settings) (run : RunId)
    (past : List MessageModel) :
    (converse st agent session run past req.message settings llm t₂).chat
        = asked st req llm (past.map toChat) ∧
      st.Says (converse st agent session run past req.message settings llm t₂).store name
        (exchange st req llm (past.map toChat)).tail := by
  have hfail : ∀ (r : RunId) (status : AgentRunStatus) (msg : String) (p m : Option String),
      st.Says (st.markCompleted r status msg p m) name [] := fun _ _ _ _ _ => Store.markCompleted_said ..
  unfold converse converseWith
  simp only [exchange, asked, hagent, hset, List.tail_cons]
  cases hprovider : llm.getProvider (providerArgs agent settings) with
  | none => exact ⟨rfl, hfail ..⟩
  | some provider =>
      cases havailable : llm.isAvailable with
      | none => exact ⟨rfl, hfail ..⟩
      | some available =>
          cases available with
          | false => exact ⟨rfl, hfail ..⟩
          | true =>
              cases hprompt : systemPromptFor st agent with
              | none => exact ⟨rfl, hfail ..⟩
              | some prompt =>
                  simp only [Option.bind_some]
                  cases hanswer : llm.chat (past.map toChat ++ [⟨.user, req.message⟩]) prompt with
                  | none => exact ⟨rfl, hfail ..⟩
                  | some answer =>
                      refine ⟨rfl, ?_⟩
                      exact (((Store.addMessage_said hids hs ..).trans
                        (Store.incrementMessageCount_said ..)).trans (Store.markCompleted_said ..))

/-- The whole request: it opens its session, says its exchange there, and asks about the first 20 messages
    said before. -/
theorem invokeAgent_said (llm : Llm) (t₁ t₂ : Time) (hst : st.Inv) (hids : st.sessionIds.Nodup)
    {agent : AgentModel} (hagent : st.getAgent req.agentId = some agent) :
    (invokeAgent st req llm t₁ t₂).chat
        = asked st req llm ((st.transcript (runtimeSessionId req)).take 20) ∧
      ∃ r : Store, r.sessionIds.Nodup ∧ st.Opens r (runtimeSessionId req) agent.id ∧
        r.Says (invokeAgent st req llm t₁ t₂).store (runtimeSessionId req)
          (exchange st req llm ((st.transcript (runtimeSessionId req)).take 20)) := by
  obtain ⟨hopens, hsession⟩ := Store.getOrCreate_opens hst agent.id (runtimeSessionId req)
  have hids' := Store.getOrCreate_sessionIds hst hids agent.id (runtimeSessionId req)
  have hinv := (hst.getOrCreate agent.id (runtimeSessionId req)).1
  set session := (st.getOrCreate agent.id (runtimeSessionId req)).1 with hsess
  set r := (st.getOrCreate agent.id (runtimeSessionId req)).2 with hr
  -- the history is read before the message is stored
  have hpast : (r.getHistory session.id 20).map toChat
      = (st.transcript (runtimeSessionId req)).take 20 := by
    rw [hinv.getHistory, List.map_take, ← Store.transcript_of_some hsession, hopens.transcript]
  have hsaid := ((Store.addMessage_said hids' hsession .user req.message none t₁).trans
    (Store.createRun_said agent session.id req.message))
  set u := ((r.addMessage session.id .user req.message none t₁).createRun agent session.id
    req.message).2 with hu
  have hstore : ∀ past, asked u req llm past = asked st req llm past := fun past =>
    asked_congr (hsaid.agents.trans hopens.agents) (hsaid.personas.trans hopens.personas) past
  have hexchange : ∀ past, exchange u req llm past = exchange st req llm past := fun past => by
    rw [exchange, hstore, exchange]
  have hu' : u.getBySessionId (runtimeSessionId req) = some session := hsession
  have hagent' : u.getAgent req.agentId = some agent := by
    rw [Store.getAgent, hsaid.agents, hopens.agents]
    exact hagent
  rw [← hpast, ← hstore, ← hexchange]
  cases hset : llm.settings with
  | none =>
      have hinvoke : invokeAgent st req llm t₁ t₂ =
          failed u (r.addMessage session.id .user req.message none t₁).fresh agent none .unhandled := by
        simp only [invokeAgent, invokeAgentWith, hagent, hset]
        rfl
      rw [hinvoke]
      have hnone : asked u req llm ((r.getHistory session.id 20).map toChat) = none := by
        simp [asked, hset]
      refine ⟨hnone.symm, r, hids', hopens, ?_⟩
      have hone : exchange u req llm ((r.getHistory session.id 20).map toChat)
          = [⟨.user, req.message⟩] ++ [] ++ [] := by
        simp [exchange, hnone]
      rw [hone]
      exact hsaid.trans (Store.markCompleted_said ..)
  | some settings =>
      have hinvoke : invokeAgent st req llm t₁ t₂ = converse u agent session
          (r.addMessage session.id .user req.message none t₁).fresh (r.getHistory session.id 20)
          req.message settings llm t₂ := by
        simp only [invokeAgent, invokeAgentWith, hagent, hset]
        rfl
      rw [hinvoke]
      obtain ⟨hchat, hspoke⟩ := converse_said t₂ (hsaid.sessionIds ▸ hids') hu' hagent'
        hset (r.addMessage session.id .user req.message none t₁).fresh (r.getHistory session.id 20)
      exact ⟨hchat, r, hids', hopens, hsaid.trans hspoke⟩

/-- An invocation asks the provider about the head of the transcript of its session. -/
theorem invokeAgent_asked (hst : st.Inv) (hids : st.sessionIds.Nodup) :
    (invokeAgent st req llm t₁ t₂).chat
      = asked st req llm ((st.transcript (runtimeSessionId req)).take 20) := by
  cases hagent : st.getAgent req.agentId with
  | none => simp [invokeAgent, invokeAgentWith, asked, hagent]
  | some agent => exact (invokeAgent_said llm t₁ t₂ hst hids hagent).1

end

/-! ## Calls -/

/-- The agent a call creates its session for, if the session is not there. -/
def Op.caller : Op → Option AgentId
  | .createSession agentId _ => some agentId
  | .appendMessage .. => none
  | .invoke req .. => some req.agentId

/-- The session a call is about. -/
def Op.session : Op → String
  | .createSession _ name => name
  | .appendMessage name .. => name
  | .invoke req .. => runtimeSessionId req

/-- What a call says in its session, given that the session is there. -/
def Op.saying (st : Store) : Op → List ChatMessage
  | .createSession .. => []
  | .appendMessage _ role content _ => [⟨role, content⟩]
  | .invoke req llm _ _ => exchange st req llm ((st.transcript (runtimeSessionId req)).take 20)

/-- Does the call find what it needs: its agent, or the session it appends to? -/
def Op.finds (op : Op) (st : Store) : Bool :=
  match op.caller with
  | some a => (st.getAgent a).isSome
  | none => (st.owner op.session).isSome

/-- What can be seen of a call: nothing if it does not find what it needs, else it opens its session for
    its caller and speaks there. -/
structure Effect (st t : Store) (op : Op) : Prop where
  agents : t.agents = st.agents
  personas : t.personas = st.personas
  owner : ∀ n, t.owner n =
    if n = op.session ∧ op.finds st then st.owner n <|> op.caller else st.owner n
  transcript : ∀ n, t.transcript n =
    st.transcript n ++ if n = op.session ∧ op.finds st then op.saying st else []

section
variable {st r t : Store} {op : Op}

theorem Effect.same (h : op.finds st = false) : Effect st st op where
  agents := rfl
  personas := rfl
  owner := by simp [h]
  transcript := by simp [h]

/-- Opening the session and speaking there is the effect of a call with a caller. -/
theorem Effect.of_said {a : AgentId} (hfinds : op.finds st) (hcaller : op.caller = some a)
    (hopens : st.Opens r op.session a) (hspoke : r.Says t op.session (op.saying st)) : Effect st t op where
  agents := hspoke.agents.trans hopens.agents
  personas := hspoke.personas.trans hopens.personas
  owner := by
    intro n
    rw [hspoke.owner, hopens.owner, hcaller]
    by_cases hn : n = op.session
    · rw [if_pos hn, if_pos ⟨hn, hfinds⟩]
      cases st.owner n <;> rfl
    · rw [if_neg hn, if_neg fun h => hn h.1]
  transcript := by
    intro n
    rw [hspoke.transcript, hopens.transcript]
    simp only [hfinds, and_true]

theorem owner_isSome_iff {name : String} :
    (st.owner name).isSome ↔ ∃ s, st.getBySessionId name = some s := by
  rw [Store.owner, Option.isSome_map, Option.isSome_iff_exists]

theorem createSession_effect (hst : st.Inv) (hids : st.sessionIds.Nodup) (a : AgentId) (name : String) :
    Effect st (createSession st a name) (.createSession a name) ∧
      (createSession st a name).sessionIds.Nodup := by
  unfold createSession
  cases hagent : st.getAgent a with
  | none => exact ⟨.same (by simp [Op.finds, Op.caller, hagent]), hids⟩
  | some agent =>
      have hid : agent.id = a := Table.key_of_find? hagent
      cases hs : st.getBySessionId name with
      | some s =>
          -- 409: the session is somebody's already
          show Effect st st _ ∧ _
          refine ⟨⟨rfl, rfl, fun n => ?_, fun n => by simp [Op.saying]⟩, hids⟩
          split
          · next hn =>
              have hn' : n = name := hn.1
              rw [hn', Store.owner, hs]
              rfl
          · rfl
      | none =>
          show Effect st (st.createSession agent.id name).2 _ ∧
            (st.createSession agent.id name).2.sessionIds.Nodup
          have hfinds : (Op.createSession a name).finds st = true := by
            simp [Op.finds, Op.caller, hagent]
          have hids' := Store.getOrCreate_sessionIds hst hids agent.id name
          rw [Store.getOrCreate, hs] at hids'
          refine ⟨.of_said hfinds ?_ (Store.createSession_opens hst hs agent.id) (.refl _ _), hids'⟩
          rw [hid]
          rfl

theorem appendMessage_effect (hids : st.sessionIds.Nodup) (name : String) (role : MessageRole)
    (content : String) (now : Time) :
    Effect st (appendMessage st name role content now) (.appendMessage name role content now) ∧
      (appendMessage st name role content now).sessionIds.Nodup := by
  unfold appendMessage
  cases hs : st.getBySessionId name with
  | none => exact ⟨.same (by simp [Op.finds, Op.caller, Op.session, Store.owner, hs]), hids⟩
  | some s =>
      have hspoke := (Store.addMessage_said hids hs role content none now).trans
        (Store.incrementMessageCount_said s.id now)
      have hfinds : (Op.appendMessage name role content now).finds st = true :=
        owner_isSome_iff.mpr ⟨s, hs⟩
      refine ⟨⟨hspoke.agents, hspoke.personas, fun n => ?_, fun n => ?_⟩, hspoke.sessionIds ▸ hids⟩
      · rw [hspoke.owner]
        split
        · show _ = (st.owner n <|> none)
          cases st.owner n <;> rfl
        · rfl
      · rw [hspoke.transcript]
        simp only [hfinds, and_true, List.append_nil]
        rfl

theorem invokeAgent_effect (hst : st.Inv) (hids : st.sessionIds.Nodup) (req : InvokeRequest) (llm : Llm)
    (t₁ t₂ : Time) :
    Effect st (invokeAgent st req llm t₁ t₂).store (.invoke req llm t₁ t₂) ∧
      (invokeAgent st req llm t₁ t₂).store.sessionIds.Nodup := by
  cases hagent : st.getAgent req.agentId with
  | none =>
      rw [invokeAgent, invokeAgentWith, hagent]
      exact ⟨.same (by simp [Op.finds, Op.caller, hagent]), hids⟩
  | some agent =>
      have hid : agent.id = req.agentId := Table.key_of_find? hagent
      obtain ⟨-, r, hids', hopens, hspoke⟩ :=
        invokeAgent_said llm t₁ t₂ hst hids hagent
      have hfinds : (Op.invoke req llm t₁ t₂).finds st = true := by
        simp [Op.finds, Op.caller, hagent]
      rw [hid] at hopens
      exact ⟨.of_said hfinds rfl hopens hspoke, hspoke.sessionIds ▸ hids'⟩

/-- **The effect of a call**, on a store with distinct session ids. -/
theorem step_effect (hst : st.Inv) (hids : st.sessionIds.Nodup) (h : step st op = some t) :
    Effect st t op ∧ t.sessionIds.Nodup := by
  cases op with
  | createSession a name =>
      obtain rfl := Option.some.inj h
      exact createSession_effect hst hids a name
  | appendMessage name role content now =>
      simp only [step, Option.ite_none_right_eq_some, Option.some.injEq] at h
      obtain ⟨-, rfl⟩ := h
      exact appendMessage_effect hids name role content now
  | invoke req llm t₁ t₂ =>
      simp only [step, Option.ite_none_right_eq_some, Option.some.injEq] at h
      obtain ⟨-, rfl⟩ := h
      exact invokeAgent_effect hst hids req llm t₁ t₂

/-- Session ids are distinct in every reachable store. -/
theorem sessionIds_nodup (h : system.Reachable st) : st.sessionIds.Nodup := by
  have hinv : system.Reachable st ∧ st.sessionIds.Nodup := by
    refine h.invariant (I := fun st => system.Reachable st ∧ st.sessionIds.Nodup) (fun s h₀ => ?_) ?_
    · exact ⟨.init h₀, by rw [Store.sessionIds, h₀.1]; exact .nil⟩
    · intro s op t hs _ hstep
      exact ⟨hs.1.tail trivial hstep, (step_effect (inv_of_reachable hs.1) hs.2 hstep).2⟩
  exact hinv.2

end

end Persola.Chat
