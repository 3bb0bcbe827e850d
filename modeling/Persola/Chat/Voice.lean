import Persola.Persona.Registry
import Persola.Chat.Invoke

/-!
# `Chat.Voice` — whether agents speak as their personas are now

An agent's row keeps the prompt its persona had when the agent was last written: `create_agent` and `update_agent`
build it, and `invoke_agent` builds one only where the row has none. An edit of the persona goes past the agents
that use it. So an agent speaks with its persona's current voice throughout a run exactly when no edit of it
changes the prompt of a persona in use (`inCharacter_throughout_iff`).
-/

namespace Persola.Chat

open Agent Persona Runs

/-! ## Agents -/

namespace Store

/-- The prompt an agent gets: its persona's, else the one of the request. -/
def configPrompt (st : Store) (config : AgentConfig) : Option String :=
  match config.personaId.bind st.getPersona with
  | some persona => persona.builtPrompt
  | none => some config.systemPrompt

/-- The foreign key of `persona_id`. -/
def Refers (st : Store) (config : AgentConfig) : Prop :=
  ∀ id ∈ config.personaId, (st.getPersona id).isSome

instance (st : Store) (config : AgentConfig) : Decidable (st.Refers config) :=
  inferInstanceAs (Decidable (∀ id ∈ config.personaId, (st.getPersona id).isSome))

end Store

/-- `create_agent`; `none` is an error response, after which nothing is committed. -/
def createAgent (st : Store) (config : AgentConfig) : Option Store := do
  let systemPrompt ← st.configPrompt config
  if config.Storable ∧ st.Refers config then
    let created := { AgentModel.fromConfig st.fresh config with systemPrompt := some systemPrompt }
    return { st with agents := st.agents ++ [created], fresh := st.fresh + 1 }
  else none

/-- The columns `update_agent` sets. -/
def agentUpdates (config : AgentConfig) (systemPrompt : String) (a : AgentModel) : AgentModel :=
  { a with
    name := config.name
    role := config.role
    model := some config.model
    temperature := some config.temperature
    maxTokens := some config.maxTokens
    systemPrompt := some systemPrompt
    personaId := config.personaId
    tools := config.tools
    memoryEnabled := config.memoryEnabled }

/-- `update_agent`. -/
def updateAgent (st : Store) (id : AgentId) (config : AgentConfig) : Option Store := do
  let _ ← st.getAgent id
  let systemPrompt ← st.configPrompt config
  if config.Storable ∧ st.Refers config then
    return { st with
      agents := st.agents.map fun a => if a.id = id then agentUpdates config systemPrompt a else a }
  else none

/-! ## What is kept beside the conversations -/

namespace Store

/-- `t` has the agents and personas of `st`. -/
structure Frame (st t : Store) : Prop where
  agents : t.agents = st.agents
  personas : t.personas = st.personas
  fresh_le : st.fresh ≤ t.fresh

variable {st r t : Store}

theorem Frame.refl (st : Store) : st.Frame st := ⟨rfl, rfl, le_rfl⟩

theorem Frame.trans (h : st.Frame r) (h' : r.Frame t) : st.Frame t where
  agents := h'.agents.trans h.agents
  personas := h'.personas.trans h.personas
  fresh_le := h.fresh_le.trans h'.fresh_le

theorem addMessage_frame (id : SessionId) (role : MessageRole) (content : String) (provider : Option String)
    (now : Time) : st.Frame (st.addMessage id role content provider now) :=
  ⟨rfl, rfl, Nat.le_succ _⟩

theorem incrementMessageCount_frame (id : SessionId) (now : Time) :
    st.Frame (st.incrementMessageCount id now) := ⟨rfl, rfl, le_rfl⟩

theorem createRun_frame (agent : AgentModel) (id : SessionId) (message : String) :
    st.Frame (st.createRun agent id message).2 := ⟨rfl, rfl, Nat.le_succ _⟩

theorem markCompleted_frame (id : RunId) (status : AgentRunStatus) (response : String)
    (provider model : Option String) : st.Frame (st.markCompleted id status response provider model) :=
  ⟨rfl, rfl, le_rfl⟩

theorem createSession_frame (a : AgentId) (name : String) : st.Frame (st.createSession a name).2 :=
  ⟨rfl, rfl, Nat.le_succ _⟩

theorem getOrCreate_frame (a : AgentId) (name : String) : st.Frame (st.getOrCreate a name).2 := by
  unfold getOrCreate
  split
  · exact .refl st
  · exact createSession_frame a name

theorem Frame.getPersona (h : st.Frame t) : t.getPersona = st.getPersona := by
  funext id
  unfold Store.getPersona
  rw [h.personas]

theorem Frame.systemPromptFor (h : st.Frame t) (agent : AgentModel) :
    systemPromptFor t agent = systemPromptFor st agent := by
  unfold Chat.systemPromptFor
  rw [h.getPersona]

end Store

section
variable {st t : Store} {agent : AgentModel} {session : SessionModel} {run : RunId}
  {past : List MessageModel} {message : String} {settings : LLMSettings} {llm : Llm}

theorem converse_frame (now : Time) :
    st.Frame (converse st agent session run past message settings llm now).store := by
  unfold converse converseWith failed
  split
  · exact Store.markCompleted_frame ..
  · exact Store.markCompleted_frame ..
  · exact Store.markCompleted_frame ..
  · split
    · exact Store.markCompleted_frame ..
    · dsimp only
      split
      · exact Store.markCompleted_frame ..
      · exact ((Store.addMessage_frame ..).trans (Store.incrementMessageCount_frame ..)).trans
          (Store.markCompleted_frame ..)

/-- What the provider is sent is the prompt of the agent. -/
theorem converse_prompt {now : Time} {call : List ChatMessage × String}
    (h : (converse st agent session run past message settings llm now).chat = some call) :
    systemPromptFor st agent = some call.2 := by
  unfold converse converseWith failed at h
  split at h
  · cases h
  · cases h
  · cases h
  · split at h
    · cases h
    · next prompt hprompt =>
        rw [hprompt]
        dsimp only at h
        split at h
        · obtain rfl := Option.some.inj h
          rfl
        · obtain rfl := Option.some.inj h
          rfl

theorem invokeAgent_frame (req : InvokeRequest) (t₁ t₂ : Time) :
    st.Frame (invokeAgent st req llm t₁ t₂).store := by
  unfold invokeAgent invokeAgentWith
  split
  · exact .refl st
  · next agent _ =>
      dsimp only
      have hopen : st.Frame (st.getOrCreate agent.id (runtimeSessionId req)).2 := Store.getOrCreate_frame ..
      have hstart := (hopen.trans (Store.addMessage_frame (st.getOrCreate agent.id (runtimeSessionId req)).1.id
        .user req.message none t₁)).trans (Store.createRun_frame agent
          (st.getOrCreate agent.id (runtimeSessionId req)).1.id req.message)
      split
      · exact hstart.trans (Store.markCompleted_frame ..)
      · exact hstart.trans (converse_frame t₂)

theorem invokeAgent_prompt {req : InvokeRequest} {t₁ t₂ : Time} {call : List ChatMessage × String}
    (hagent : st.getAgent req.agentId = some agent) (h : (invokeAgent st req llm t₁ t₂).chat = some call) :
    systemPromptFor st agent = some call.2 := by
  have hopen : st.Frame (st.getOrCreate agent.id (runtimeSessionId req)).2 := Store.getOrCreate_frame ..
  have hstart := (hopen.trans (Store.addMessage_frame (st.getOrCreate agent.id (runtimeSessionId req)).1.id
    .user req.message none t₁)).trans (Store.createRun_frame agent
      (st.getOrCreate agent.id (runtimeSessionId req)).1.id req.message)
  unfold invokeAgent invokeAgentWith at h
  rw [hagent] at h
  dsimp only at h
  split at h
  · cases h
  · rw [← hstart.systemPromptFor]
    exact converse_prompt h

theorem step_frame {op : Op} (h : step st op = some t) : st.Frame t := by
  cases op with
  | createSession a name =>
      obtain rfl := Option.some.inj h
      unfold createSession
      split
      · exact Store.createSession_frame ..
      · exact .refl st
  | appendMessage name role content now =>
      obtain ⟨-, h⟩ := Option.ite_none_right_eq_some.mp h
      obtain rfl := Option.some.inj h
      unfold appendMessage
      split
      · exact .refl st
      · exact (Store.addMessage_frame ..).trans (Store.incrementMessageCount_frame ..)
  | invoke req llm t₁ t₂ =>
      obtain ⟨-, h⟩ := Option.ite_none_right_eq_some.mp h
      obtain rfl := Option.some.inj h
      exact invokeAgent_frame req t₁ t₂

end

/-! ## Speaking in character -/

/-- Whoever is asked now: the provider is sent the prompt of the persona as it is now. -/
def Store.InCharacter (st : Store) : Prop :=
  ∀ req llm t₁ t₂ call agent id persona, (invokeAgent st req llm t₁ t₂).chat = some call →
    st.getAgent req.agentId = some agent → agent.personaId = some id → st.getPersona id = some persona →
    persona.builtPrompt = some call.2

/-- The rows of agents hang together with those of personas: an agent's persona is there, and its prompt was
built. -/
structure Store.Cast (st : Store) : Prop where
  personas_lt : ∀ p ∈ st.personas, p.id < st.fresh
  agents_lt : ∀ a ∈ st.agents, a.id < st.fresh
  nodup : (st.agents.map (·.id)).Nodup
  refers : ∀ a ∈ st.agents, ∀ id, a.personaId = some id → ∃ persona, st.getPersona id = some persona
  prompted : ∀ a ∈ st.agents, ∀ id, a.personaId = some id → ∃ profile, a.systemPrompt = some (buildSystemPrompt profile)

section
variable {st t : Store} {a : AgentModel} {id : PersonaId} {persona : PersonaModel}

/-- A provider that is up. -/
def listening : Llm where
  settings := some ⟨"", "", 0, 1⟩
  getProvider := fun _ => some ""
  isAvailable := some true
  chat := fun _ _ => none

/-- An agent with a prompt of its own is heard with it. -/
theorem exists_call (hagent : st.getAgent a.id = some a) {prompt : String}
    (hprompt : systemPromptFor st a = some prompt) :
    ∃ messages, (invokeAgent st ⟨a.id, "", "", none⟩ listening 0 0).chat = some (messages, prompt) := by
  have hsame : ∀ {u : Store}, st.Frame u → Chat.systemPromptFor u a = some prompt :=
    fun hu => (hu.systemPromptFor a).trans hprompt
  unfold invokeAgent invokeAgentWith
  rw [hagent]
  dsimp only [listening]
  unfold converseWith
  dsimp only
  rw [hsame (((Store.getOrCreate_frame ..).trans (Store.addMessage_frame ..)).trans (Store.createRun_frame ..))]
  exact ⟨_, rfl⟩

theorem Store.Cast.systemPromptFor (h : st.Cast) (ha : a ∈ st.agents) (hid : a.personaId = some id) :
    systemPromptFor st a = a.systemPrompt := by
  obtain ⟨profile, hprompt⟩ := h.prompted a ha id hid
  unfold Chat.systemPromptFor
  rw [hprompt]
  exact if_pos (buildSystemPrompt_ne_empty profile)

/-- **Agents speak in character** exactly when their rows have the prompts of their personas. -/
theorem Store.Cast.inCharacter_iff (h : st.Cast) : st.InCharacter ↔
    ∀ a ∈ st.agents, ∀ id persona, a.personaId = some id → st.getPersona id = some persona →
      persona.builtPrompt = a.systemPrompt := by
  constructor
  · intro hall a ha id persona hid hpersona
    obtain ⟨profile, hprompt⟩ := h.prompted a ha id hid
    have hget : st.getAgent a.id = some a := Table.find?_key h.nodup ha
    obtain ⟨messages, hcall⟩ := exists_call hget ((h.systemPromptFor ha hid).trans hprompt)
    rw [hall _ _ _ _ _ a id persona hcall hget hid hpersona, hprompt]
  · intro hall req llm t₁ t₂ call agent id persona hcall hagent hid hpersona
    have ha : agent ∈ st.agents := List.mem_of_find?_eq_some hagent
    rw [hall agent ha id persona hid hpersona, ← h.systemPromptFor ha hid]
    exact invokeAgent_prompt hagent hcall

/-- Agents stay as they are while personas change under their ids. -/
theorem Store.Cast.of_agents (h : st.Cast) (hagents : t.agents = st.agents) (hfresh : st.fresh ≤ t.fresh)
    (hpersonas : ∀ p ∈ t.personas, p.id < t.fresh)
    (hget : ∀ id, (st.getPersona id).isSome → (t.getPersona id).isSome) : t.Cast where
  personas_lt := hpersonas
  agents_lt := by
    rw [hagents]
    exact fun a ha => (h.agents_lt a ha).trans_le hfresh
  nodup := by
    rw [hagents]
    exact h.nodup
  refers := by
    rw [hagents]
    intro a ha id hid
    obtain ⟨persona, hpersona⟩ := h.refers a ha id hid
    exact Option.isSome_iff_exists.mp (hget id (by rw [hpersona]; rfl))
  prompted := by
    rw [hagents]
    exact h.prompted

theorem Store.Frame.cast (hf : st.Frame t) (h : st.Cast) : t.Cast := by
  refine h.of_agents hf.agents hf.fresh_le ?_ ?_
  · rw [hf.personas]
    exact fun p hp => (h.personas_lt p hp).trans_le hf.fresh_le
  · rw [hf.getPersona]
    exact fun id hid => hid

theorem Store.Frame.inCharacter_iff (hf : st.Frame t) (h : st.Cast) : t.InCharacter ↔ st.InCharacter := by
  rw [h.inCharacter_iff, (hf.cast h).inCharacter_iff, hf.agents, hf.getPersona]

/-! ## Writing agents -/

/-- The prompt of a request with a persona is built from it. -/
theorem configPrompt_spec {config : AgentConfig} {prompt : String} (h : st.configPrompt config = some prompt)
    (hid : config.personaId = some id) (hget : st.getPersona id = some persona) :
    persona.builtPrompt = some prompt := by
  unfold Store.configPrompt at h
  rw [hid, Option.bind_some, hget] at h
  exact h

theorem builtPrompt_spec {prompt : String} (h : persona.builtPrompt = some prompt) :
    ∃ profile, some prompt = some (buildSystemPrompt profile) := by
  obtain ⟨profile, -, rfl⟩ := Option.map_eq_some_iff.mp h
  exact ⟨profile, rfl⟩

/-- **Agents that are written** for a request with a valid persona speak in character, and so do the others if
they did. -/
theorem Store.Cast.written {config : AgentConfig} {prompt : String} (h : st.Cast)
    (hprompt : st.configPrompt config = some prompt) (hrefers : st.Refers config)
    (hpersonas : t.personas = st.personas) (hfresh : st.fresh ≤ t.fresh)
    (hlt : ∀ a ∈ t.agents, a.id < t.fresh) (hnodup : (t.agents.map (·.id)).Nodup)
    (hagents : ∀ a ∈ t.agents,
      a ∈ st.agents ∨ a.personaId = config.personaId ∧ a.systemPrompt = some prompt) :
    t.Cast ∧ (st.InCharacter → t.InCharacter) := by
  have hget : t.getPersona = st.getPersona := by
    unfold Store.getPersona
    rw [hpersonas]
  have hcast : t.Cast := by
    constructor
    · rw [hpersonas]
      exact fun p hp => (h.personas_lt p hp).trans_le hfresh
    · exact hlt
    · exact hnodup
    · intro a ha id hid
      rw [hget]
      rcases hagents a ha with hold | ⟨hpersona, -⟩
      · exact h.refers a hold id hid
      · exact Option.isSome_iff_exists.mp (hrefers id (hpersona.symm.trans hid))
    · intro a ha id hid
      rcases hagents a ha with hold | ⟨hpersona, hsystem⟩
      · exact h.prompted a hold id hid
      · have hconfig : config.personaId = some id := hpersona.symm.trans hid
        obtain ⟨persona, hrow⟩ := Option.isSome_iff_exists.mp (hrefers id hconfig)
        rw [hsystem]
        exact builtPrompt_spec (configPrompt_spec hprompt hconfig hrow)
  refine ⟨hcast, ?_⟩
  rw [h.inCharacter_iff, hcast.inCharacter_iff, hget]
  intro hall a ha id persona hid hrow
  rcases hagents a ha with hold | ⟨hpersona, hsystem⟩
  · exact hall a hold id persona hid hrow
  · rw [hsystem]
    exact configPrompt_spec hprompt (hpersona.symm.trans hid) hrow

/-- **A new agent.** -/
theorem createAgent_spec {config : AgentConfig} (h : st.Cast) (hcreate : createAgent st config = some t) :
    t.Cast ∧ (st.InCharacter → t.InCharacter) := by
  obtain ⟨prompt, hprompt, hcreate⟩ := Option.bind_eq_some_iff.mp hcreate
  obtain ⟨⟨-, hrefers⟩, hcreate⟩ := Option.ite_none_right_eq_some.mp hcreate
  obtain rfl := Option.some.inj hcreate
  refine h.written hprompt hrefers rfl (Nat.le_succ _) ?_ ?_ ?_
  · intro a ha
    rcases List.mem_append.mp ha with hold | hnew
    · exact (h.agents_lt a hold).trans (Nat.lt_succ_self _)
    · obtain rfl := List.mem_singleton.mp hnew
      exact Nat.lt_succ_self _
  · rw [List.map_append, List.map_singleton]
    refine List.Nodup.append h.nodup (List.nodup_singleton _) ?_
    intro i hi hnew
    obtain ⟨a, ha, rfl⟩ := List.mem_map.mp hi
    exact (h.agents_lt a ha).ne (List.mem_singleton.mp hnew)
  · intro a ha
    rcases List.mem_append.mp ha with hold | hnew
    · exact .inl hold
    · obtain rfl := List.mem_singleton.mp hnew
      exact .inr ⟨rfl, rfl⟩

/-- **An agent written anew.** -/
theorem updateAgent_spec {i : AgentId} {config : AgentConfig} (h : st.Cast)
    (hupdate : updateAgent st i config = some t) : t.Cast ∧ (st.InCharacter → t.InCharacter) := by
  obtain ⟨-, -, hupdate⟩ := Option.bind_eq_some_iff.mp hupdate
  obtain ⟨prompt, hprompt, hupdate⟩ := Option.bind_eq_some_iff.mp hupdate
  obtain ⟨⟨-, hrefers⟩, hupdate⟩ := Option.ite_none_right_eq_some.mp hupdate
  obtain rfl := Option.some.inj hupdate
  have hkey : ∀ a : AgentModel, (if a.id = i then agentUpdates config prompt a else a).id = a.id := by
    intro a
    split
    · rfl
    · rfl
  refine h.written hprompt hrefers rfl le_rfl ?_ ?_ ?_
  · intro a ha
    obtain ⟨b, hb, rfl⟩ := List.mem_map.mp ha
    rw [hkey]
    exact h.agents_lt b hb
  · rw [List.map_map]
    simp only [Function.comp_def, hkey]
    exact h.nodup
  · intro a ha
    obtain ⟨b, hb, rfl⟩ := List.mem_map.mp ha
    by_cases hid : b.id = i
    · rw [if_pos hid]
      exact .inr ⟨rfl, rfl⟩
    · rw [if_neg hid]
      exact .inl hb

end

/-! ## Runs -/

/-- The tables of the API: agents, personas, conversations; and the versions of the personas. -/
structure Voices where
  store : Store
  versions : List PersonaVersionModel

namespace Voices

/-- The tables of personas. -/
def registry (v : Voices) : Registry := ⟨v.store.personas, v.versions, v.store.fresh⟩

/-- A write to the tables of personas. -/
def write (v : Voices) (r : Registry) : Voices where
  store := { v.store with personas := r.personas, fresh := r.fresh }
  versions := r.versions

end Voices

/-- The requests that write personas and agents, and the conversations. -/
inductive VoiceOp
  | edit (e : Edit)
  | createAgent (config : AgentConfig)
  | updateAgent (id : AgentId) (config : AgentConfig)
  | chat (op : Op)

/-- The API on a database with any personas and no agents yet; a failed request changes nothing. -/
def voices : System Voices VoiceOp where
  init v := v.store.agents = [] ∧ v.registry.Bounded
  step v
    | .edit e => some (v.write (e.run v.registry))
    | .createAgent config => some { v with store := (createAgent v.store config).getD v.store }
    | .updateAgent id config => some { v with store := (updateAgent v.store id config).getD v.store }
    | .chat op => (step v.store op).map fun store => { v with store }

/-- A persona with an agent keeps its prompt: the row the edit makes, if it can be stored, has the prompt of the
row that is there. -/
def keepsVoice (v : Voices) : VoiceOp → Prop
  | .edit e => ∀ change ∈ e.change, ∀ persona ∈ v.registry.get change.1,
      (∃ a ∈ v.store.agents, a.personaId = some change.1) →
      (change.2 persona).Storable → (change.2 persona).toProfile.isSome →
      (change.2 persona).builtPrompt = persona.builtPrompt
  | _ => True

instance (v : Voices) (op : VoiceOp) : Decidable (keepsVoice v op) :=
  match op with
  | .edit e => inferInstanceAs (Decidable (∀ change ∈ e.change, ∀ persona ∈ v.registry.get change.1,
      (∃ a ∈ v.store.agents, a.personaId = some change.1) →
      (change.2 persona).Storable → (change.2 persona).toProfile.isSome →
      (change.2 persona).builtPrompt = persona.builtPrompt))
  | .createAgent _ => inferInstanceAs (Decidable True)
  | .updateAgent _ _ => inferInstanceAs (Decidable True)
  | .chat _ => inferInstanceAs (Decidable True)

section
variable {v w : Voices} {op : VoiceOp}

/-- Edits of personas keep the rows of agents and personas together. -/
theorem cast_write (h : v.store.Cast) (e : Edit) : (v.write (e.run v.registry)).store.Cast := by
  have hbounded : v.registry.Bounded := h.personas_lt
  have hfresh : v.registry.fresh ≤ (e.run v.registry).fresh := Registry.fresh_le_run e
  refine h.of_agents rfl hfresh (Registry.run_bounded hbounded e) ?_
  intro id hid
  exact Registry.get_isSome_run hbounded e hid

/-- **An edit** keeps every agent in character exactly when the persona it changes has no agents or keeps its
prompt. -/
theorem edit_inCharacter_iff (h : v.store.Cast) (hv : v.store.InCharacter) (e : Edit) :
    (v.write (e.run v.registry)).store.InCharacter ↔ keepsVoice v (.edit e) := by
  rw [h.inCharacter_iff] at hv
  rw [(cast_write h e).inCharacter_iff]
  unfold Edit.run
  cases happly : e.apply v.registry with
  | none =>
      refine iff_of_true hv ?_
      -- the request was refused, so it did not meet what a change has to
      rintro ⟨id, data⟩ hchange persona hget - hstorable hprofile
      have hsome := (Registry.apply_isSome_iff hchange).mpr ⟨persona, hget, hstorable, hprofile⟩
      rw [happly] at hsome
      cases hsome
  | some t =>
      show (∀ a ∈ v.store.agents, ∀ id persona, a.personaId = some id → t.get id = some persona → _) ↔ _
      have hbounded : v.registry.Bounded := h.personas_lt
      cases hchange : e.change with
      | none =>
          -- a persona is new, and no agent has it
          refine iff_of_true (fun a ha id persona hid hget => hv a ha id persona hid ?_) ?_
          · obtain ⟨p, hp⟩ := h.refers a ha id hid
            have hthere : (v.registry.get id).isSome := Option.isSome_iff_exists.mpr ⟨p, hp⟩
            exact (Registry.get_of_created hbounded hchange happly hthere).symm.trans hget
          · rintro change hmem
            rw [hchange] at hmem
            cases hmem
      | some change =>
          obtain ⟨j, data⟩ := change
          have hget : ∀ id, t.get id = if id = j then (v.registry.get id).map data else v.registry.get id :=
            fun id => Registry.get_of_change hchange happly
          constructor
          · rintro hall ⟨i, f⟩ hmem persona hpersona ⟨a, ha, hid⟩ - -
            obtain ⟨rfl, rfl⟩ := Prod.mk.inj (Option.some.inj (hchange.symm.trans hmem))
            have hrow : t.get j = some (data persona) := by
              rw [hget, if_pos rfl, show v.registry.get j = some persona from hpersona]
              rfl
            rw [hall a ha j _ hid hrow, hv a ha j persona hid hpersona]
          · intro hkeeps a ha id persona hid hrow
            rw [hget] at hrow
            split at hrow
            · next heq =>
                subst heq
                obtain ⟨old, hold, rfl⟩ := Option.map_eq_some_iff.mp hrow
                have hsome : (e.apply v.registry).isSome := by
                  rw [happly]
                  rfl
                obtain ⟨p, hp, hstorable, hprofile⟩ := (Registry.apply_isSome_iff hchange).mp hsome
                obtain rfl : old = p := Option.some.inj (hold.symm.trans hp)
                rw [hkeeps (id, data) hchange old hold ⟨a, ha, hid⟩ hstorable hprofile]
                exact hv a ha id old hid hold
            · exact hv a ha id persona hid hrow

/-- **One request** keeps the tables together, and the agents in character exactly when it meets the
condition. -/
theorem voices_step_iff (h : v.store.Cast) (hv : v.store.InCharacter) (hstep : voices.step v op = some w) :
    w.store.Cast ∧ (w.store.InCharacter ↔ keepsVoice v op) := by
  cases op with
  | edit e =>
      obtain rfl := Option.some.inj hstep
      exact ⟨cast_write h e, edit_inCharacter_iff h hv e⟩
  | createAgent config =>
      obtain rfl := Option.some.inj hstep
      cases hcreate : createAgent v.store config with
      | none => exact ⟨h, iff_of_true hv trivial⟩
      | some t =>
          obtain ⟨hcast, hkeep⟩ := createAgent_spec h hcreate
          exact ⟨hcast, iff_of_true (hkeep hv) trivial⟩
  | updateAgent id config =>
      obtain rfl := Option.some.inj hstep
      cases hupdate : updateAgent v.store id config with
      | none => exact ⟨h, iff_of_true hv trivial⟩
      | some t =>
          obtain ⟨hcast, hkeep⟩ := updateAgent_spec h hupdate
          exact ⟨hcast, iff_of_true (hkeep hv) trivial⟩
  | chat op =>
      obtain ⟨t, ht, rfl⟩ := Option.map_eq_some_iff.mp hstep
      have hframe := step_frame ht
      exact ⟨hframe.cast h, iff_of_true ((hframe.inCharacter_iff h).mpr hv) trivial⟩

/-- Without agents nothing can be amiss. -/
theorem cast_init (h : voices.init v) : v.store.Cast := by
  obtain ⟨hnone, hbounded⟩ := h
  refine ⟨hbounded, ?_, ?_, ?_, ?_⟩
  · simp [hnone]
  · simp [hnone]
  · simp [hnone]
  · simp [hnone]

end

/-- **Every agent speaks with the voice its persona has, after every request of a run, exactly when no edit of
the run changes the prompt of a persona that an agent has.** -/
theorem inCharacter_throughout_iff {v₀ v : Voices} {ops : List VoiceOp} (h₀ : voices.init v₀)
    (h : voices.exec v₀ ops = some v) :
    voices.Throughout (·.store.InCharacter) v₀ ops ↔ voices.Meets keepsVoice v₀ ops := by
  have hcast := cast_init h₀
  have hstart : v₀.store.InCharacter := by
    rw [hcast.inCharacter_iff, h₀.1]
    intro a ha
    cases ha
  exact System.throughout_iff (fun _ _ _ hinv hchar hstep => voices_step_iff hinv hchar hstep) hcast hstart h

/-- Nothing yet. -/
def noVoices : Voices := ⟨⟨[], [], [], [], [], 0, 0⟩, []⟩

theorem init_noVoices : voices.init noVoices := ⟨rfl, fun _ hp => absurd hp List.not_mem_nil⟩

/-- A persona and an agent with it. -/
def casting : List VoiceOp :=
  [.edit (.createPersona (defaultPresets .creative)), .createAgent { personaId := some 0 }]

/-- The persona is given other sampling, the agent is written anew and asked. -/
def rehearsal : List VoiceOp :=
  casting ++ [.edit (.updatePersona 0 ⟨{ presetFields .creative with temperature := 1 }, by decide +kernel⟩),
    .updateAgent 1 { name := "Muse", personaId := some 0 }, .chat (.invoke ⟨1, "1", "Hello", none⟩ listening 1 2)]

theorem inCharacter_rehearsal : voices.Throughout (·.store.InCharacter) noVoices rehearsal := by
  have hex : ((voices.exec noVoices rehearsal).any fun _ => true) = true := by decide +kernel
  obtain ⟨v, hrun, -⟩ := System.exists_of_exec hex
  exact (inCharacter_throughout_iff init_noVoices hrun).mpr (by decide +kernel)

/-- **The persona of an agent is changed to a preset**: the agent goes on with the old prompt. -/
theorem invokeAgent_out_of_character : ¬ ∀ v₀ ops v, voices.init v₀ → voices.exec v₀ ops = some v →
    v.store.InCharacter := by
  intro hall
  have hex : ((voices.exec noVoices (casting ++ [.edit (.applyPreset 0 .technical)])).any fun v =>
      (v.store.getAgent 1).any fun a => (v.store.getPersona 0).any fun p =>
        (invokeAgent v.store ⟨1, "1", "Hello", none⟩ listening 1 2).chat.any fun call =>
          decide (a.personaId = some 0 ∧ p.builtPrompt ≠ some call.2)) = true := by
    decide +kernel
  obtain ⟨v, hrun, hv⟩ := System.exists_of_exec hex
  obtain ⟨a, hagent, hv⟩ := (Option.any_eq_true ..).mp hv
  obtain ⟨p, hpersona, hv⟩ := (Option.any_eq_true ..).mp hv
  obtain ⟨call, hcall, hv⟩ := (Option.any_eq_true ..).mp hv
  obtain ⟨hid, hne⟩ := of_decide_eq_true hv
  exact hne (hall _ _ v init_noVoices hrun _ _ _ _ call a 0 p hcall hagent hid hpersona)

end Persola.Chat
