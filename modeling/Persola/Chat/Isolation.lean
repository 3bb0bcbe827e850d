import Persola.Chat.Transcript

/-!
# `Chat.Isolation` — what an agent's prompt depends on

Two runs of the chat API side by side, alike except for what is said in the sessions of other agents than
`B`, agree on everything `B` should see (`agree_of_reach`). `get_or_create` does not ask whose session it
found, so an invocation of `B` in the session of another agent reads that agent's history: for every such
session there is a second run in which that history begins differently (`exists_twin`), and the prompt
with it.
-/

namespace Persola.Chat

open Agent Persona Runs

/-! ## Two runs side by side -/

/-- A call of both runs, or of one of them. -/
inductive TwinOp
  | both (op op' : Op)
  | left (op : Op)
  | right (op : Op)

/-- Both runs, one call at a time. -/
def twinStep (s : Store × Store) : TwinOp → Option (Store × Store)
  | .both op op' => do return (← step s.1 op, ← step s.2 op')
  | .left op => do return (← step s.1 op, s.2)
  | .right op => do return (s.1, ← step s.2 op)

/-- Two runs from the same database. -/
def twins : System (Store × Store) TwinOp where
  init s := system.init s.1 ∧ s.2 = s.1
  step := twinStep

/-- The call is about a session of another agent than `B`, or creates one. -/
def Op.foreign (B : AgentId) (st : Store) (op : Op) : Prop :=
  ∃ a, (st.owner op.session <|> op.caller) = some a ∧ a ≠ B

/-- The same call, at another time; in a foreign session something else may be said and answered. -/
def Op.Same (foreign : Prop) : Op → Op → Prop
  | .createSession a name, .createSession a' name' => a' = a ∧ name' = name
  | .appendMessage name role content _, .appendMessage name' role' content' _ =>
      name' = name ∧ (foreign ∨ role' = role ∧ content' = content)
  | .invoke req llm _ _, .invoke req' llm' _ _ =>
      req' = { req with message := req'.message } ∧ (foreign ∨ req'.message = req.message ∧ llm' = llm)
  | _, _ => False

/-- **The runs are the same for `B`**: both make the same calls, up to what is said in sessions of other
    agents, and calls that one run makes alone are about such a session. -/
def SameFor (B : AgentId) (s : Store × Store) : TwinOp → Prop
  | .both op op' => op.Same (op.foreign B s.1) op'
  | .left op => ∃ a, s.1.owner op.session = some a ∧ a ≠ B
  | .right op => ∃ a, s.2.owner op.session = some a ∧ a ≠ B

/-! ## What the runs agree on -/

/-- The stores agree on all `B` should see. -/
structure Agree (B : AgentId) (s t : Store) : Prop where
  agents : t.agents = s.agents
  personas : t.personas = s.personas
  owner : ∀ n, t.owner n = s.owner n
  transcript : ∀ n, s.owner n = some B → t.transcript n = s.transcript n

section
variable {B : AgentId} {s t s' t' : Store} {op op' : Op}

theorem Agree.refl (B : AgentId) (s : Store) : Agree B s s := ⟨rfl, rfl, fun _ => rfl, fun _ _ => rfl⟩

theorem Agree.symm (h : Agree B s t) : Agree B t s where
  agents := h.agents.symm
  personas := h.personas.symm
  owner := fun n => (h.owner n).symm
  transcript := fun n hn => (h.transcript n ((h.owner n).symm.trans hn)).symm

theorem transcript_of_owner_none {name : String} (h : s.owner name = none) : s.transcript name = [] :=
  Store.transcript_of_none (Option.map_eq_none_iff.mp h)

/-- A session that is not there or belongs to `B` has the same transcript in both. -/
theorem Agree.transcript_eq (h : Agree B s t) {name : String} (hown : ∀ a, s.owner name = some a → a = B) :
    t.transcript name = s.transcript name := by
  cases ho : s.owner name with
  | none => rw [transcript_of_owner_none ho, transcript_of_owner_none ((h.owner name).trans ho)]
  | some a => exact h.transcript name (by rw [ho, hown a ho])

theorem Op.Same.session_eq {foreign : Prop} (h : op.Same foreign op') : op'.session = op.session := by
  cases op <;> cases op' <;> try exact h.elim
  · exact h.2
  · exact h.1
  · rw [Op.session, h.1]
    rfl

theorem Op.Same.caller_eq {foreign : Prop} (h : op.Same foreign op') : op'.caller = op.caller := by
  cases op <;> cases op' <;> try exact h.elim
  · exact congrArg some h.1
  · rfl
  · rw [Op.caller, h.1]
    rfl

theorem Agree.finds_eq (h : Agree B s t) {foreign : Prop} (hsame : op.Same foreign op') :
    op'.finds t = op.finds s := by
  unfold Op.finds
  rw [hsame.caller_eq, hsame.session_eq, h.owner]
  cases op.caller with
  | none => rfl
  | some a =>
      show (t.getAgent a).isSome = (s.getAgent a).isSome
      unfold Store.getAgent
      rw [h.agents]

theorem owner_of_not_foreign (h : ¬ op.foreign B s) {a : AgentId} (ha : s.owner op.session = some a) :
    a = B := by
  by_contra hne
  exact h ⟨a, by rw [ha]; rfl, hne⟩

theorem exchange_congr {req : InvokeRequest} {llm : Llm} (h : Agree B s t) (past : List ChatMessage) :
    exchange t req llm past = exchange s req llm past := by
  rw [exchange, asked_congr h.agents h.personas, exchange]

/-- What is said in a session of `B` is the same in both. -/
theorem Agree.saying_eq (h : Agree B s t) (hsame : op.Same (op.foreign B s) op')
    (hown : ¬ op.foreign B s) : op'.saying t = op.saying s := by
  cases op with
  | createSession a name => cases op' <;> first | rfl | exact hsame.elim
  | appendMessage name role content now =>
      cases op' with
      | appendMessage name' role' content' now' =>
          obtain ⟨-, hforeign | ⟨rfl, rfl⟩⟩ := hsame
          · exact absurd hforeign hown
          · rfl
      | createSession a name => exact hsame.elim
      | invoke req llm t₁ t₂ => exact hsame.elim
  | invoke req llm t₁ t₂ =>
      cases op' with
      | invoke req' llm' t₁' t₂' =>
          obtain ⟨hreq, hforeign | ⟨hmessage, rfl⟩⟩ := hsame
          · exact absurd hforeign hown
          · obtain rfl : req' = req := by rw [hreq, hmessage]
            have htranscript : t.transcript (runtimeSessionId req') = s.transcript (runtimeSessionId req') :=
              h.transcript_eq fun a ha => owner_of_not_foreign hown ha
            show exchange t req' llm' _ = exchange s req' llm' _
            rw [htranscript, exchange_congr h]
      | createSession a name => exact hsame.elim
      | appendMessage name role content now => exact hsame.elim

/-- A call of both runs keeps the agreement. -/
theorem Agree.both (h : Agree B s t) (hsame : op.Same (op.foreign B s) op') (he : Effect s s' op)
    (he' : Effect t t' op') : Agree B s' t' where
  agents := he'.agents.trans (h.agents.trans he.agents.symm)
  personas := he'.personas.trans (h.personas.trans he.personas.symm)
  owner := by
    intro n
    rw [he'.owner, he.owner, hsame.session_eq, hsame.caller_eq, h.finds_eq hsame, h.owner]
  transcript := by
    intro n hn
    rw [he.owner] at hn
    rw [he'.transcript, he.transcript, hsame.session_eq, h.finds_eq hsame]
    by_cases hat : n = op.session ∧ op.finds s = true
    · rw [if_pos hat] at hn ⊢
      rw [if_pos hat]
      obtain ⟨rfl, -⟩ := hat
      have hown : ¬ op.foreign B s := fun ⟨a, ha, hne⟩ => hne (Option.some.inj (ha.symm.trans hn))
      rw [h.saying_eq hsame hown, h.transcript_eq fun a ha => owner_of_not_foreign hown ha]
    · rw [if_neg hat] at hn ⊢
      rw [if_neg hat, h.transcript n hn]

/-- A call about a session of another agent keeps the agreement on one side. -/
theorem Agree.left (h : Agree B s t) (hforeign : ∃ a, s.owner op.session = some a ∧ a ≠ B)
    (he : Effect s s' op) : Agree B s' t := by
  obtain ⟨a, ha, hne⟩ := hforeign
  have howner : ∀ n, s'.owner n = s.owner n := by
    intro n
    rw [he.owner]
    split
    · next hn =>
        rw [hn.1, ha]
        rfl
    · rfl
  refine ⟨h.agents.trans he.agents.symm, h.personas.trans he.personas.symm,
    fun n => (h.owner n).trans (howner n).symm, fun n hn => ?_⟩
  rw [howner] at hn
  rw [he.transcript, if_neg, List.append_nil, h.transcript n hn]
  rintro ⟨rfl, -⟩
  exact hne (Option.some.inj (ha.symm.trans hn))

/-- Both sides of a pair of runs are runs, and they agree on what `B` should see. -/
structure Paired (B : AgentId) (p : Store × Store) : Prop where
  left : system.Reachable p.1
  right : system.Reachable p.2
  agree : Agree B p.1 p.2

/-- **Step lemma**: calls that are the same for `B` keep the agreement. -/
theorem paired_step {p q : Store × Store} {o : TwinOp} (hp : Paired B p) (hC : SameFor B p o)
    (h : twins.step p o = some q) : Paired B q := by
  have heffect : ∀ {u v : Store} {op : Op}, system.Reachable u → step u op = some v → Effect u v op :=
    fun hu hstep => (step_effect (inv_of_reachable hu) (sessionIds_nodup hu) hstep).1
  cases o with
  | both op op' =>
      obtain ⟨s', hs', h⟩ := Option.bind_eq_some_iff.mp h
      obtain ⟨t', ht', h⟩ := Option.bind_eq_some_iff.mp h
      obtain rfl := Option.some.inj h
      exact ⟨hp.left.tail trivial hs', hp.right.tail trivial ht',
        hp.agree.both hC (heffect hp.left hs') (heffect hp.right ht')⟩
  | left op =>
      obtain ⟨s', hs', h⟩ := Option.bind_eq_some_iff.mp h
      obtain rfl := Option.some.inj h
      exact ⟨hp.left.tail trivial hs', hp.right, hp.agree.left hC (heffect hp.left hs')⟩
  | right op =>
      obtain ⟨t', ht', h⟩ := Option.bind_eq_some_iff.mp h
      obtain rfl := Option.some.inj h
      exact ⟨hp.left, hp.right.tail trivial ht',
        (hp.agree.symm.left hC (heffect hp.right ht')).symm⟩

/-- **Run lemma**: runs that are the same for `B` agree on all `B` should see. -/
theorem paired_of_reach {p : Store × Store} (h : twins.Reach (SameFor B) p) : Paired B p := by
  refine h.invariant (I := Paired B) (fun p h₀ => ?_) fun _ _ _ hp hC hst => paired_step hp hC hst
  obtain ⟨s, t⟩ := p
  obtain ⟨h₀, heq⟩ := h₀
  obtain rfl : t = s := heq
  exact ⟨.init h₀, .init h₀, .refl B t⟩

/-! ## A second run for a foreign session -/

/-- The same call with the clock moved on to a store. -/
def Op.retime (st : Store) : Op → Op
  | .createSession a name => .createSession a name
  | .appendMessage name role content _ => .appendMessage name role content (st.now + 1)
  | .invoke req llm _ _ => .invoke req llm (st.now + 1) (st.now + 2)

/-- The same call with another message. -/
def Op.alter : Op → Op
  | .createSession a name => .createSession a name
  | .appendMessage name role content t => .appendMessage name role (content ++ "!") t
  | .invoke req llm t₁ t₂ => .invoke { req with message := req.message ++ "!" } llm t₁ t₂

theorem same_retime (foreign : Prop) : op.Same foreign (op.retime t) := by
  cases op with
  | createSession a name => exact ⟨rfl, rfl⟩
  | appendMessage name role content now => exact ⟨rfl, .inr ⟨rfl, rfl⟩⟩
  | invoke req llm t₁ t₂ => exact ⟨rfl, .inr ⟨rfl, rfl⟩⟩

theorem same_alter (h : op.foreign B s) : op.Same (op.foreign B s) op.alter := by
  cases op with
  | createSession a name => exact ⟨rfl, rfl⟩
  | appendMessage name role content now => exact ⟨rfl, .inl h⟩
  | invoke req llm t₁ t₂ => exact ⟨rfl, .inl h⟩

theorem step_retime_isSome (t : Store) (op : Op) : ∃ t', step t (op.retime t) = some t' := by
  cases op with
  | createSession a name => exact ⟨_, rfl⟩
  | appendMessage name role content now => exact ⟨_, if_pos (Nat.lt_succ_self _)⟩
  | invoke req llm t₁ t₂ => exact ⟨_, if_pos ⟨Nat.lt_succ_self _, Nat.lt_succ_self _⟩⟩

theorem step_alter_isSome (h : step s op = some s') : ∃ t', step s op.alter = some t' := by
  cases op with
  | createSession a name => exact ⟨_, rfl⟩
  | appendMessage name role content now =>
      exact ⟨_, if_pos (Option.ite_none_right_eq_some.mp h).1⟩
  | invoke req llm t₁ t₂ => exact ⟨_, if_pos (Option.ite_none_right_eq_some.mp h).1⟩

/-- Another message is another beginning. -/
theorem head_alter {c : ChatMessage} (h : (op.saying s).head? = some c) :
    ∃ c', (op.alter.saying s).head? = some c' ∧ c' ≠ c := by
  have hne : ∀ (role : MessageRole) (content : String),
      (⟨role, content ++ "!"⟩ : ChatMessage) ≠ ⟨role, content⟩ := by
    intro role content heq
    have hlen := congrArg (fun m : ChatMessage => m.content.length) heq
    simp at hlen
  cases op with
  | createSession a name => cases h
  | appendMessage name role content now =>
      obtain rfl := Option.some.inj h
      exact ⟨_, rfl, hne role content⟩
  | invoke req llm t₁ t₂ =>
      obtain rfl := Option.some.inj h
      exact ⟨_, rfl, hne .user req.message⟩

/-- What was said first stays first. -/
theorem Effect.head (he : Effect s s' op) {name : String} {c : ChatMessage}
    (h : (s.transcript name).head? = some c) : (s'.transcript name).head? = some c := by
  rw [he.transcript, List.head?_append, h]
  rfl

/-- Every run is a pair of runs with itself. -/
theorem twins_diagonal (h : system.Reachable s) : twins.Reach (SameFor B) (s, s) := by
  refine h.invariant (I := fun s => twins.Reach (SameFor B) (s, s)) (fun s h₀ => .init ⟨h₀, rfl⟩) ?_
  intro s op s' hs _ hst
  have hst' : step s op = some s' := hst
  have hsame : op.Same (op.foreign B s) op := by
    cases op with
    | createSession a name => exact ⟨rfl, rfl⟩
    | appendMessage name role content now => exact ⟨rfl, .inr ⟨rfl, rfl⟩⟩
    | invoke req llm t₁ t₂ => exact ⟨rfl, .inr ⟨rfl, rfl⟩⟩
  exact hs.tail (l := .both op op) hsame (by simp [twins, twinStep, hst'])

/-- A session of another agent that something was said in begins differently in some second run: the call
    that said it says something else there. -/
theorem exists_twin_head (h : system.Reachable s) {name : String} {a : AgentId}
    (hown : s.owner name = some a) (hne : a ≠ B) {c : ChatMessage}
    (hc : (s.transcript name).head? = some c) :
    ∃ t, twins.Reach (SameFor B) (s, t) ∧ ∃ c', (t.transcript name).head? = some c' ∧ c' ≠ c := by
  have hinv : system.Reachable s ∧ ∀ name a c, s.owner name = some a → a ≠ B →
      (s.transcript name).head? = some c →
        ∃ t, twins.Reach (SameFor B) (s, t) ∧ ∃ c', (t.transcript name).head? = some c' ∧ c' ≠ c := by
    refine h.invariant (I := fun s => system.Reachable s ∧ ∀ name a c, s.owner name = some a → a ≠ B →
      (s.transcript name).head? = some c →
        ∃ t, twins.Reach (SameFor B) (s, t) ∧ ∃ c', (t.transcript name).head? = some c' ∧ c' ≠ c)
      (fun s h₀ => ⟨.init h₀, fun name a c hown => ?_⟩) ?_
    · simp [Store.owner, Store.getBySessionId, h₀.1] at hown
    · rintro s op s' ⟨hs, ih⟩ - hst
      refine ⟨hs.tail trivial hst, fun name a c hown hne hc => ?_⟩
      have he := (step_effect (inv_of_reachable hs) (sessionIds_nodup hs) hst).1
      cases hold : (s.transcript name).head? with
      | some c₀ =>
          -- the beginning was there before: the second run of before makes the same call
          obtain rfl : c₀ = c := Option.some.inj ((he.head hold).symm.trans hc)
          have hown' : s.owner name = some a := by
            rw [he.owner] at hown
            cases ho : s.owner name with
            | some b => rw [ho] at hown; split at hown <;> exact hown
            | none => rw [transcript_of_owner_none ho] at hold; cases hold
          obtain ⟨t, ht, c', hc', hne'⟩ := ih name a c₀ hown' hne hold
          obtain ⟨t', ht'⟩ := step_retime_isSome t op
          have htreach := (paired_of_reach ht).right
          have he' := (step_effect (inv_of_reachable htreach) (sessionIds_nodup htreach) ht').1
          refine ⟨t', ht.tail (l := .both op (op.retime t)) (same_retime _) ?_, c', he'.head hc', hne'⟩
          simp [twins, twinStep, show step s op = some s' from hst, ht']
      | none =>
          -- the beginning is said by this call: the second run says something else
          have hnil : s.transcript name = [] := List.head?_eq_none_iff.mp hold
          rw [he.transcript, hnil, List.nil_append] at hc
          have hat : name = op.session ∧ op.finds s = true := by
            by_contra hno
            rw [if_neg hno] at hc
            cases hc
          rw [if_pos hat] at hc
          rw [he.owner, if_pos hat, hat.1] at hown
          have hforeign : op.foreign B s := ⟨a, hown, hne⟩
          obtain ⟨t', ht'⟩ := step_alter_isSome hst
          obtain ⟨c', hc', hne'⟩ := head_alter hc
          have he' := (step_effect (inv_of_reachable hs) (sessionIds_nodup hs) ht').1
          have hsame := same_alter hforeign
          refine ⟨t', (twins_diagonal hs).tail (l := .both op op.alter) hsame ?_, c', ?_, hne'⟩
          · simp [twins, twinStep, show step s op = some s' from hst, ht']
          · rw [he'.transcript, hnil, List.nil_append, hsame.session_eq,
              (Agree.refl B s).finds_eq hsame, if_pos hat]
            exact hc'
  exact hinv.2 name a c hown hne hc

/-- **For every session of another agent there is a second run whose history of it is another.** -/
theorem exists_twin (h : system.Reachable s) {name : String} {a : AgentId}
    (hown : s.owner name = some a) (hne : a ≠ B) :
    ∃ t, twins.Reach (SameFor B) (s, t) ∧ (t.transcript name).take 20 ≠ (s.transcript name).take 20 := by
  cases hc : (s.transcript name).head? with
  | some c =>
      obtain ⟨t, ht, c', hc', hne'⟩ := exists_twin_head h hown hne hc
      refine ⟨t, ht, fun heq => hne' ?_⟩
      have hheads := congrArg List.head? heq
      rw [List.head?_take, List.head?_take, if_neg (by decide), if_neg (by decide), hc, hc'] at hheads
      exact Option.some.inj hheads
  | none =>
      -- nothing was said yet: one message more in the second run
      have hnil : s.transcript name = [] := List.head?_eq_none_iff.mp hc
      let op : Op := .appendMessage name .user "" (s.now + 1)
      have hst : step s op = some (appendMessage s name .user "" (s.now + 1)) :=
        if_pos (Nat.lt_succ_self _)
      have he := (step_effect (inv_of_reachable h) (sessionIds_nodup h) hst).1
      refine ⟨_, (twins_diagonal h).tail (l := .right op) ⟨a, hown, hne⟩
        (by simp [twins, twinStep, hst]; rfl), ?_⟩
      have hfinds : op.finds s = true := by
        show (s.owner name).isSome = true
        rw [hown]
        rfl
      rw [he.transcript, hnil, List.nil_append, if_pos ⟨rfl, hfinds⟩]
      simp [op, Op.saying]

end

/-- The request can get as far as the provider: its agent exists and its prompt can be built. -/
def Answerable (s : Store) (req : InvokeRequest) : Prop :=
  ∃ agent, s.getAgent req.agentId = some agent ∧ (systemPromptFor s agent).isSome

/-- A provider that is up, whatever it answers, is asked about the history and the message. -/
theorem asked_of_answerable {s : Store} {req : InvokeRequest} (h : Answerable s req) (llm : Llm)
    {settings : LLMSettings} (hset : llm.settings = some settings)
    (hprovider : ∀ args, (llm.getProvider args).isSome) (havailable : llm.isAvailable = some true)
    (past : List ChatMessage) :
    ∃ prompt, asked s req llm past = some (past ++ [⟨.user, req.message⟩], prompt) := by
  obtain ⟨agent, hagent, hprompt⟩ := h
  obtain ⟨prompt, hprompt⟩ := Option.isSome_iff_exists.mp hprompt
  obtain ⟨provider, hprovider⟩ := Option.isSome_iff_exists.mp (hprovider (providerArgs agent settings))
  exact ⟨prompt, by simp [asked, hagent, hset, hprovider, havailable, hprompt]⟩

/-- **Isolation holds exactly in the agent's own sessions.** For every reachable store `s` and every request
    to an agent: in every second run that is the same for this agent the request gives the provider the same
    messages and system prompt, whatever the provider answers, if and only if the session it runs in is not
    there yet or was created for this agent, unless the agent does not exist or has no prompt, when the
    provider is asked nothing. -/
theorem isolated_iff {s : Store} (h : system.Reachable s) (req : InvokeRequest) :
    (∀ t, twins.Reach (SameFor req.agentId) (s, t) → ∀ llm t₁ t₂ t₁' t₂',
        (invokeAgent t req llm t₁' t₂').chat = (invokeAgent s req llm t₁ t₂).chat) ↔
      (Answerable s req → ∀ a, s.owner (runtimeSessionId req) = some a → a = req.agentId) := by
  have hasked : ∀ {u : Store}, system.Reachable u → ∀ llm t₁ t₂, (invokeAgent u req llm t₁ t₂).chat
      = asked u req llm ((u.transcript (runtimeSessionId req)).take 20) :=
    fun hu llm t₁ t₂ => invokeAgent_asked (inv_of_reachable hu) (sessionIds_nodup hu)
  constructor
  · intro hall hanswer a hown
    by_contra hne
    obtain ⟨t, ht, hdiff⟩ := exists_twin h hown hne
    have hpair := paired_of_reach ht
    have heq := hall t ht answering 0 0 0 0
    rw [hasked hpair.right, hasked h, asked_congr hpair.agree.agents hpair.agree.personas] at heq
    obtain ⟨prompt, hone⟩ := asked_of_answerable hanswer answering rfl (fun _ => rfl) rfl
      ((t.transcript (runtimeSessionId req)).take 20)
    obtain ⟨prompt', htwo⟩ := asked_of_answerable hanswer answering rfl (fun _ => rfl) rfl
      ((s.transcript (runtimeSessionId req)).take 20)
    rw [hone, htwo] at heq
    exact hdiff (List.append_cancel_right (Prod.mk.inj (Option.some.inj heq)).1)
  · intro hown t ht llm t₁ t₂ t₁' t₂'
    have hpair := paired_of_reach ht
    rw [hasked hpair.right, hasked h, asked_congr hpair.agree.agents hpair.agree.personas]
    by_cases hanswer : Answerable s req
    · rw [hpair.agree.transcript_eq (hown hanswer)]
    · -- nothing is asked, whatever the history
      have hnone : ∀ past, asked s req llm past = none := by
        intro past
        unfold asked
        split
        · next agent settings hagent hset =>
            split
            · next provider prompt hprovider havailable hprompt =>
                exact absurd ⟨agent, hagent, by rw [hprompt]; rfl⟩ hanswer
            · rfl
        · rfl
      rw [hnone, hnone]

/-! ## Two agents -/

/-- Two agents, no conversation yet. -/
def twoAgents : Store :=
  { emptyChat with agents := emptyChat.agents ++
      [{ id := 2, name := "Bob", model := none, systemPrompt := some "Be kind.", personaId := none }] }

/-- Bob is asked in a session of his own. -/
def askBob : InvokeRequest := ⟨2, "2", "next", some "b"⟩

/-- Bob's own session: the prompt is the same in every run that is the same for him. -/
theorem isolated_own_session :
    ∃ s, system.exec twoAgents [.createSession 1 "a", .createSession 2 "b"] = some s ∧
      ∀ t, twins.Reach (SameFor 2) (s, t) → ∀ llm t₁ t₂ t₁' t₂',
        (invokeAgent t askBob llm t₁' t₂').chat = (invokeAgent s askBob llm t₁ t₂).chat := by
  have hex : ((system.exec twoAgents [.createSession 1 "a", .createSession 2 "b"]).any fun s =>
      s.owner "b" = some 2) = true := by
    decide +kernel
  obtain ⟨s, hrun, hown⟩ := System.exists_of_exec hex
  have hown' : s.owner "b" = some 2 := of_decide_eq_true hown
  have hreach : system.Reachable s := System.reachable_of_exec ⟨rfl, rfl, rfl⟩ hrun
  refine ⟨s, hrun, (isolated_iff hreach askBob).mpr fun _ a ha => ?_⟩
  exact Option.some.inj (ha.symm.trans hown')

/-- Ada's session: a message in it is read by Bob. -/
theorem invokeAgent_reads_foreign : ¬ ∀ (B : AgentId) (s t : Store) (req : InvokeRequest) (llm : Llm)
    (t₁ t₂ t₁' t₂' : Time), twins.Reach (SameFor B) (s, t) → req.agentId = B →
      (invokeAgent t req llm t₁' t₂').chat = (invokeAgent s req llm t₁ t₂).chat := by
  intro hall
  let ops : List TwinOp := [.both (.createSession 1 "a") (.createSession 1 "a"),
    .right (.appendMessage "a" .user "secret" 1)]
  have hex : ((twins.exec (twoAgents, twoAgents) ops).any fun p =>
      (invokeAgent p.2 { askBob with sessionId := some "a" } answering 5 6).chat ≠
        (invokeAgent p.1 { askBob with sessionId := some "a" } answering 5 6).chat) = true := by
    decide +kernel
  obtain ⟨⟨s, t⟩, hrun, hdiff⟩ := System.exists_of_exec hex
  have hmeets : twins.Meets (SameFor 2) (twoAgents, twoAgents) ops := by
    refine ⟨⟨rfl, rfl⟩, fun p hp => ⟨⟨1, ?_, by decide⟩, fun _ _ => trivial⟩⟩
    obtain rfl := Option.some.inj hp
    decide +kernel
  have hreach : twins.Reach (SameFor 2) (s, t) :=
    ⟨_, ⟨⟨rfl, rfl, rfl⟩, rfl⟩, System.run_of_meets hrun hmeets⟩
  exact of_decide_eq_true hdiff (hall 2 s t _ answering 5 6 5 6 hreach rfl)

end Persola.Chat
