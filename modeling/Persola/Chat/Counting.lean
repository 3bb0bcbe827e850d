import Persola.Chat.Transcript

/-!
# `Chat.Counting` — which messages a session counts

`message_count` is kept beside the message rows: `increment_message_count` follows the insert in
`append_message`, and in `invoke_agent` it follows the answer's insert but not the one of the user's message.
Every write is summed up by how many rows and how many counts it adds to one session (`Store.Logged`); an
invocation adds one row more than it counts, on each of its exits (`invokeAgent_logged`), and so the count is
right throughout a run exactly when nobody is asked in it (`counted_throughout_iff`).
-/

namespace Persola.Chat

open Agent Persona Runs

namespace Store

/-- Every session counts the messages stored for it. -/
def Counted (st : Store) : Prop := ∀ s ∈ st.sessions, s.messageCount = (st.stored s.id).length

/-- The sessions with their counts. -/
def counts (st : Store) : List (SessionId × ℕ) := st.sessions.map fun s => (s.id, s.messageCount)

/-- `t` is `st` after `rows` messages were stored in the session `id` and `count` were counted. -/
structure Logged (st t : Store) (id : SessionId) (rows count : ℕ) : Prop where
  counts : t.counts = st.counts.map fun c => (c.1, c.2 + if c.1 = id then count else 0)
  stored : ∀ i, (t.stored i).length = (st.stored i).length + if i = id then rows else 0

variable {st r t : Store} {id : SessionId} {rows rows' count count' : ℕ}

theorem counted_iff_counts : st.Counted ↔ ∀ c ∈ st.counts, c.2 = (st.stored c.1).length := by
  unfold Counted counts
  rw [List.forall_mem_map]

theorem Logged.trans (h : st.Logged r id rows count) (h' : r.Logged t id rows' count') :
    st.Logged t id (rows + rows') (count + count') where
  counts := by
    rw [h'.counts, h.counts, List.map_map]
    refine List.map_congr_left fun c _ => ?_
    simp only [Function.comp_apply]
    split
    · rw [Nat.add_assoc]
    · rfl
  stored := by
    intro i
    rw [h'.stored, h.stored]
    split
    · rw [Nat.add_assoc]
    · rfl

/-- Writes that touch neither sessions nor messages log nothing. -/
theorem Logged.of_same (hsessions : t.sessions = st.sessions) (hmessages : t.messages = st.messages) :
    st.Logged t id 0 0 where
  counts := by
    simp only [ite_self, Nat.add_zero, Prod.mk.eta, List.map_id']
    rw [Store.counts, hsessions]
    rfl
  stored := by
    intro i
    rw [ite_self, Nat.add_zero, Store.stored, hmessages]
    rfl

/-- The rows of `agent_runs` are not messages. -/
theorem createRun_logged (agent : AgentModel) (message : String) :
    st.Logged (st.createRun agent id message).2 id 0 0 := .of_same rfl rfl

theorem markCompleted_logged (run : RunId) (status : AgentRunStatus) (response : String)
    (provider model : Option String) :
    st.Logged (st.markCompleted run status response provider model) id 0 0 := .of_same rfl rfl

/-- An insert without a count. -/
theorem addMessage_logged (role : MessageRole) (content : String) (provider : Option String) (now : Time) :
    st.Logged (st.addMessage id role content provider now) id 1 0 where
  counts := by
    simp only [ite_self, Nat.add_zero, Prod.mk.eta, List.map_id']
    rfl
  stored := by
    intro i
    unfold Store.stored addMessage
    by_cases hi : id = i
    · simp [hi]
    · simp [hi, Ne.symm hi]

/-- A count without an insert. -/
theorem incrementMessageCount_logged (now : Time) :
    st.Logged (st.incrementMessageCount id now) id 0 1 where
  counts := by
    unfold Store.counts incrementMessageCount
    rw [List.map_map, List.map_map]
    refine List.map_congr_left fun s _ => ?_
    simp only [Function.comp_apply]
    split <;> rfl
  stored := by
    intro i
    rw [ite_self]
    rfl

/-- **The count stays right** exactly where as many messages are counted as are stored. -/
theorem Logged.counted_iff (h : st.Logged t id rows count) (hst : st.Counted)
    (hid : id ∈ st.sessionIds) : t.Counted ↔ count = rows := by
  rw [counted_iff_counts] at hst ⊢
  rw [h.counts, List.forall_mem_map]
  simp only [h.stored]
  constructor
  · intro hall
    obtain ⟨s, hs, rfl⟩ := List.mem_map.mp hid
    have hbefore := hst (s.id, s.messageCount) (List.mem_map_of_mem hs)
    have hafter := hall (s.id, s.messageCount) (List.mem_map_of_mem hs)
    rw [if_pos rfl, if_pos rfl] at hafter
    omega
  · rintro rfl c hc
    rw [hst c hc]

/-- A new session has nothing to count. -/
theorem createSession_counted (hinv : st.Inv) (hst : st.Counted) (a : AgentId) (name : String) :
    (st.createSession a name).2.Counted := by
  intro s hs
  rcases List.mem_append.mp hs with hold | hnew
  · exact hst s hold
  · rw [List.mem_singleton.mp hnew]
    show 0 = ((st.messages.filter (·.sessionId = st.fresh))).length
    rw [List.filter_eq_nil_iff.mpr]
    · rfl
    · intro m hm
      have hlt := hinv.messagesFresh m hm
      simpa using hlt.ne

theorem getOrCreate_counted (hinv : st.Inv) (hst : st.Counted) (a : AgentId) (name : String) :
    (st.getOrCreate a name).2.Counted := by
  unfold getOrCreate
  split
  · exact hst
  · exact createSession_counted hinv hst a name

theorem getOrCreate_mem (a : AgentId) (name : String) :
    (st.getOrCreate a name).1.id ∈ (st.getOrCreate a name).2.sessionIds := by
  unfold getOrCreate
  split
  · next s hs => exact List.mem_map_of_mem (mem_of_getBySessionId hs)
  · exact List.mem_map_of_mem (List.mem_append_right _ (List.mem_singleton_self _))

end Store

open Store

section
variable {st t : Store} {op : Op} {req : InvokeRequest} {llm : Llm} {t₁ t₂ : Time}

/-! ## The operations -/

/-- The `try` block counts what it stores: the answer, if there is one. -/
theorem converse_logged (st : Store) (agent : AgentModel) (session : SessionModel) (run : RunId)
    (past : List MessageModel) (message : String) (settings : LLMSettings) (llm : Llm) (t₂ : Time) :
    ∃ n, st.Logged (converse st agent session run past message settings llm t₂).store session.id n n := by
  unfold converse converseWith
  split
  · exact ⟨0, markCompleted_logged ..⟩
  · exact ⟨0, markCompleted_logged ..⟩
  · exact ⟨0, markCompleted_logged ..⟩
  · split
    · exact ⟨0, markCompleted_logged ..⟩
    · dsimp only
      split
      · exact ⟨0, markCompleted_logged ..⟩
      · exact ⟨1, ((addMessage_logged ..).trans (incrementMessageCount_logged _)).trans
          (markCompleted_logged ..)⟩

/-- **An invocation** of an agent that exists counts one message less than it stores, however it ends. -/
theorem invokeAgent_logged {agent : AgentModel} (hagent : st.getAgent req.agentId = some agent) (llm : Llm)
    (t₁ t₂ : Time) :
    ∃ n, (st.getOrCreate agent.id (runtimeSessionId req)).2.Logged (invokeAgent st req llm t₁ t₂).store
      (st.getOrCreate agent.id (runtimeSessionId req)).1.id (n + 1) n := by
  unfold invokeAgent invokeAgentWith
  rw [hagent]
  dsimp only
  generalize st.getOrCreate agent.id (runtimeSessionId req) = opened
  obtain ⟨session, r⟩ := opened
  dsimp only
  -- the user's message is stored and not counted, on all exits
  have hasked : r.Logged ((r.addMessage session.id .user req.message none t₁).createRun agent session.id
      req.message).2 session.id 1 0 :=
    (addMessage_logged ..).trans (createRun_logged ..)
  cases llm.settings with
  | none => exact ⟨0, hasked.trans (markCompleted_logged ..)⟩
  | some settings =>
      obtain ⟨n, hn⟩ := converse_logged
        ((r.addMessage session.id .user req.message none t₁).createRun agent session.id req.message).2
        agent session (r.addMessage session.id .user req.message none t₁).fresh
        (r.getHistory session.id 20) req.message settings llm t₂
      refine ⟨n, ?_⟩
      have hall := hasked.trans hn
      rwa [Nat.zero_add, Nat.add_comm 1 n] at hall

/-- The call asks no agent. -/
def silent (st : Store) : Op → Prop
  | .invoke req .. => st.getAgent req.agentId = none
  | _ => True

instance (st : Store) (op : Op) : Decidable (silent st op) := by
  cases op with
  | invoke req llm t₁ t₂ => exact decidable_of_iff ((st.getAgent req.agentId).isNone) (by simp [silent])
  | createSession a name => exact .isTrue trivial
  | appendMessage name role content t => exact .isTrue trivial

/-- **Step lemma**: a call keeps the counts right exactly when it asks nobody. -/
theorem step_counted_iff (hinv : st.Inv) (hst : st.Counted) (h : step st op = some t) :
    t.Counted ↔ silent st op := by
  cases op with
  | createSession a name =>
      obtain rfl := Option.some.inj h
      refine iff_of_true ?_ trivial
      unfold Chat.createSession
      split
      · exact createSession_counted hinv hst _ _
      · exact hst
  | appendMessage name role content now =>
      simp only [step, Option.ite_none_right_eq_some, Option.some.injEq] at h
      obtain ⟨-, rfl⟩ := h
      refine iff_of_true ?_ trivial
      unfold Chat.appendMessage
      split
      · exact hst
      · next s hs =>
          have hadded : st.Logged (st.addMessage s.id role content none now) s.id 1 0 := addMessage_logged ..
          have hlogged := hadded.trans (incrementMessageCount_logged now)
          exact (hlogged.counted_iff hst (List.mem_map_of_mem (mem_of_getBySessionId hs))).mpr rfl
  | invoke req llm t₁ t₂ =>
      simp only [step, Option.ite_none_right_eq_some, Option.some.injEq] at h
      obtain ⟨-, rfl⟩ := h
      cases hagent : st.getAgent req.agentId with
      | none =>
          refine iff_of_true ?_ hagent
          rw [invokeAgent, invokeAgentWith, hagent]
          exact hst
      | some agent =>
          obtain ⟨n, hlogged⟩ := invokeAgent_logged hagent llm t₁ t₂
          rw [hlogged.counted_iff (getOrCreate_counted hinv hst _ _) (getOrCreate_mem _ _)]
          refine iff_of_false n.succ_ne_self.symm fun hnone => ?_
          rw [silent, hagent] at hnone
          cases hnone

end

/-- **The counts are right throughout a run** exactly when no call of it asks an agent that exists. -/
theorem counted_throughout_iff {s₀ s : Store} {ops : List Op} (h₀ : system.init s₀)
    (h : system.exec s₀ ops = some s) :
    system.Throughout Store.Counted s₀ ops ↔ system.Meets silent s₀ ops := by
  have hcounted : s₀.Counted := fun x hx => by rw [h₀.1] at hx; cases hx
  refine System.throughout_iff (I := system.Reachable) (fun u op v hu hP hstep => ?_) (.init h₀) hcounted h
  exact ⟨hu.tail trivial hstep, step_counted_iff (inv_of_reachable hu) hP hstep⟩

/-- A session in which messages are appended and an unknown agent is asked. -/
def dictated : List Op :=
  [.createSession 1 "s", .appendMessage "s" .user "a" 1, .appendMessage "s" .assistant "b" 2,
   .invoke ⟨7, "7", "anyone?", some "s"⟩ answering 3 4]

/-- Its count is right throughout. -/
theorem counted_dictated : system.Throughout Store.Counted emptyChat dictated := by
  have hex : ((system.exec emptyChat dictated).any fun _ => true) = true := by decide +kernel
  obtain ⟨s, hrun, -⟩ := System.exists_of_exec hex
  exact (counted_throughout_iff ⟨rfl, rfl, rfl⟩ hrun).mpr (by decide +kernel)

/-- **One turn** of a conversation: two messages, and a count of one. -/
theorem invokeAgent_miscounts : ¬ ∀ s, system.Reachable s → ∀ x ∈ s.sessions,
    x.messageCount = (s.stored x.id).length := by
  intro hall
  have hex : ((system.exec emptyChat [.invoke askAda answering 1 2]).any fun s =>
      s.sessions.any fun x => x.messageCount ≠ (s.stored x.id).length) = true := by
    decide +kernel
  obtain ⟨s, hrun, hany⟩ := System.exists_of_exec hex
  obtain ⟨x, hx, hne⟩ := List.any_eq_true.mp hany
  exact of_decide_eq_true hne (hall s (System.reachable_of_exec ⟨rfl, rfl, rfl⟩ hrun) x hx)

end Persola.Chat
