import Persola.Chat.Invoke

/-!
# `Chat.Window` — which part of the conversation the model sees

The history window is read with `get_history(limit=20)`, an *ascending* query cut at 20 rows, so it is
the head of the conversation and not its tail: `invokeAgent_window_iff` says exactly when the two agree.
The sibling `get_recent` reads the tail (`Store.Inv.getRecent`).
-/

namespace Persola.Chat

open Agent Persona Runs

/-! ## The two history queries -/

/-- The stored messages of the session with this name, oldest first; none if there is no such
    session. -/
def conversation (st : Store) (name : String) : List MessageModel :=
  match st.getBySessionId name with
  | some s => st.stored s.id
  | none => []

/-- Storage order is chronological order, so an ascending query cut at `n` returns the `n` oldest. -/
theorem Store.Inv.getHistory {st : Store} (h : st.Inv) (id : SessionId) (n : ℕ) :
    st.getHistory id n = (st.stored id).take n := by
  have hp : (st.stored id).Pairwise fun a b => a.createdAt ≤ b.createdAt :=
    (h.ordered.filter _).imp le_of_lt
  rw [Store.getHistory, Select.orderBy_eq_self hp]

/-- The sibling query, descending and cut at `n`, returns the `n` newest, newest first. -/
theorem Store.Inv.getRecent {st : Store} (h : st.Inv) (id : SessionId) (n : ℕ) :
    (st.getRecent id n).reverse = Select.lastN n (st.stored id) := by
  have hp : (st.stored id).Pairwise fun a b => a.createdAt < b.createdAt := h.ordered.filter _
  rw [Store.getRecent, Select.orderByDesc_eq_reverse hp, Select.lastN, List.take_reverse,
    List.reverse_reverse]

/-- `get_or_create` hands over the session's conversation: a session made on the fly has none. -/
theorem Store.Inv.stored_getOrCreate {st : Store} (h : st.Inv) (a : AgentId) (name : String) :
    (st.getOrCreate a name).2.stored (st.getOrCreate a name).1.id = conversation st name := by
  unfold Store.getOrCreate conversation
  cases hs : st.getBySessionId name with
  | some s => rfl
  | none =>
      refine List.filter_eq_nil_iff.mpr fun m hm => ?_
      have hne : m.sessionId ≠ st.fresh := (h.messagesFresh m hm).ne
      exact fun he => hne (of_decide_eq_true he)

/-! ## The window of an invocation -/

/-- Only the last step of the `try` block calls the provider, with the history it was given and the
    new message. -/
theorem converse_chat {st : Store} {agent : AgentModel} {session : SessionModel} {run : RunId}
    {past : List MessageModel} {message : String} {settings : LLMSettings} {llm : Llm} {t : Time}
    {messages : List ChatMessage} {prompt : String}
    (h : (converse st agent session run past message settings llm t).chat
      = some (messages, prompt)) :
    messages = past.map toChat ++ [⟨.user, message⟩] := by
  unfold converse converseWith at h
  split at h
  · cases h
  · cases h
  · cases h
  · split at h
    · cases h
    · dsimp only at h
      split at h <;> cases h <;> rfl

/-- What an invocation hands to the provider: the first 20 messages of the conversation, then the new
    one. -/
theorem invokeAgent_chat {st : Store} (hst : st.Inv) {req : InvokeRequest} {llm : Llm}
    {t₁ t₂ : Time} {messages : List ChatMessage} {prompt : String}
    (h : (invokeAgent st req llm t₁ t₂).chat = some (messages, prompt)) :
    messages = ((conversation st (runtimeSessionId req)).take 20).map toChat
      ++ [⟨.user, req.message⟩] := by
  unfold invokeAgent invokeAgentWith at h
  cases hagent : st.getAgent req.agentId with
  | none => rw [hagent] at h; cases h
  | some agent =>
      rw [hagent] at h
      dsimp only at h
      obtain ⟨hinv, -, -, -⟩ := hst.getOrCreate agent.id (runtimeSessionId req)
      cases hset : llm.settings with
      | none => rw [hset] at h; cases h
      | some settings =>
          rw [hset] at h
          rw [converse_chat h, hinv.getHistory, hst.stored_getOrCreate]

/-- **The window is right exactly for short or repetitive conversations.** In every store the chat API
    can reach, an invocation hands the provider the last `min n 20` stored messages followed by the new
    one if and only if `n ≤ 20`, or the `n` stored messages repeat themselves: each of the first 20 has
    the role and the content of the one `n - 20` places later. -/
theorem invokeAgent_window_iff {st : Store} (hst : system.Reachable st) {req : InvokeRequest}
    {llm : Llm} {t₁ t₂ : Time} {messages : List ChatMessage} {prompt : String}
    (h : (invokeAgent st req llm t₁ t₂).chat = some (messages, prompt)) :
    messages = (Select.lastN 20 (conversation st (runtimeSessionId req))).map toChat
        ++ [⟨.user, req.message⟩] ↔
      (conversation st (runtimeSessionId req)).length ≤ 20 ∨
        Select.Repeats 20 ((conversation st (runtimeSessionId req)).map toChat) := by
  rw [invokeAgent_chat (inv_of_reachable hst) h, List.append_cancel_right_eq, List.map_take,
    ← Select.lastN_map, Select.take_eq_lastN_iff, List.length_map]

/-! ## A conversation that outgrew the window -/

/-- One agent without persona and an empty conversation. -/
def emptyChat : Store where
  agents := [{ id := 1, name := "Ada", model := none, systemPrompt := some "Be brief.",
               personaId := none }]
  personas := []
  sessions := []
  messages := []
  runs := []
  now := 0
  fresh := 10

/-- A provider that is up and answers `ok`. -/
def answering : Llm where
  settings := some ⟨"ollama", "qwen3-coder:30b", 7/10, 2000⟩
  getProvider := fun args => some args.provider
  isAvailable := some true
  chat := fun _ _ => some "ok"

def askAda : InvokeRequest := ⟨1, "1", "next", some "s"⟩

/-- `n` numbered messages appended to session `s`. -/
def chatter (n : ℕ) : List Op :=
  .createSession 1 "s" ::
    (List.range n).map fun i => .appendMessage "s" .user (toString i) (i + 1)

/-- After 21 stored messages the oldest one is sent and the newest one is not. -/
theorem invokeAgent_drops_newest :
    ∃ st, system.exec emptyChat (chatter 21) = some st ∧ system.Reachable st ∧
      ∃ messages prompt,
      (invokeAgent st askAda answering 100 101).chat = some (messages, prompt) ∧
      messages ≠ (Select.lastN 20 (conversation st (runtimeSessionId askAda))).map toChat
        ++ [⟨.user, askAda.message⟩] := by
  have hex : ((system.exec emptyChat (chatter 21)).any fun st =>
      (invokeAgent st askAda answering 100 101).chat.any fun call =>
        call.1 ≠ (Select.lastN 20 (conversation st "s")).map toChat ++ [⟨.user, "next"⟩]) = true := by
    decide +kernel
  obtain ⟨st, hrun, hcall⟩ := System.exists_of_exec hex
  obtain ⟨⟨messages, prompt⟩, hchat, hne⟩ := (Option.any_eq_true ..).mp hcall
  exact ⟨st, hrun, System.reachable_of_exec ⟨rfl, rfl, rfl⟩ hrun, messages, prompt, hchat,
    of_decide_eq_true hne⟩

/-- The equivalence at a conversation of two messages, on which the window is right. -/
theorem invokeAgent_window_short :
    ∃ st, system.Reachable st ∧ ∃ messages prompt,
      (invokeAgent st askAda answering 100 101).chat = some (messages, prompt) ∧
      messages = (Select.lastN 20 (conversation st (runtimeSessionId askAda))).map toChat
        ++ [⟨.user, askAda.message⟩] := by
  have hex : ((system.exec emptyChat (chatter 2)).any fun st =>
      (invokeAgent st askAda answering 100 101).chat.isSome &&
        decide ((conversation st (runtimeSessionId askAda)).length ≤ 20)) = true := by
    decide +kernel
  obtain ⟨st, hrun, hp⟩ := System.exists_of_exec hex
  have hst : system.Reachable st := System.reachable_of_exec ⟨rfl, rfl, rfl⟩ hrun
  rw [Bool.and_eq_true, decide_eq_true_eq] at hp
  obtain ⟨⟨messages, prompt⟩, hchat⟩ := Option.isSome_iff_exists.mp hp.1
  exact ⟨st, hst, messages, prompt, hchat,
    (invokeAgent_window_iff hst hchat).mpr (Or.inl hp.2)⟩

end Persola.Chat
