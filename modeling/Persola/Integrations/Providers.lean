import Persola.Integrations.Durable
import Persola.Chat.Transcript

/-!
# `Integrations.Providers` — the language models behind one interface

`PersolaLLM` picks a client by the name of the provider, and each client puts a conversation into a request of its own:
the local model and those that follow OpenAI get the system prompt as a first message, Anthropic gets it apart from the
messages, and for Gemini whoever is not the assistant is the user. So two conversations may come to one request, in a
way that depends on the client (`chat_eq_iff`), but not where only the user and the assistant speak. What that means
for the invocations in the chats that can arise is `request_eq_iff`.
-/

namespace Persola.Integrations

variable {ν ω : Type*}

/-! ## Keys and models -/

/-- The key of a provider in the settings. -/
def fileKey (s : LLMSettings ν) : String → String
  | "openai" => s.text .openaiApiKey
  | "anthropic" => s.text .anthropicApiKey
  | "gemini" => s.text .geminiApiKey
  | "openrouter" => s.text .openrouterApiKey
  | _ => ""

/-- `env_map`. -/
def keyVariable : String → String
  | "openai" => "OPENAI_API_KEY"
  | "anthropic" => "ANTHROPIC_API_KEY"
  | "gemini" => "GEMINI_API_KEY"
  | "openrouter" => "OPENROUTER_API_KEY"
  | _ => ""

namespace Host

variable (h : Host ν ω) (environ : Environ)

/-- `resolved_api_key`. -/
def resolvedApiKey (s : LLMSettings ν) (provider : Option String) : String :=
  let p := h.lower (Py.orElse provider (s.text .provider))
  if Py.strip (fileKey s p) ≠ "" then Py.strip (fileKey s p)
  else if p = "gemini" then
    Py.strip (Py.orElse (environ "GEMINI_API_KEY") (Py.orElse (environ "GOOGLE_API_KEY") ""))
  else Py.strip ((environ (keyVariable p)).getD "")

/-- `resolved_model`. -/
def resolvedModel (s : LLMSettings ν) (provider : Option String) : String :=
  let p := h.lower (Py.orElse provider (s.text .provider))
  if Py.strip (s.text .model) ≠ "" then Py.strip (s.text .model)
  else match p with
    | "ollama" => (environ "LOCAL_LLM_MODEL").getD "qwen3-coder:30b"
    | "openai" => Py.orElse (some (s.text .openaiModel)) ((environ "OPENAI_MODEL").getD "gpt-4o-mini")
    | "anthropic" =>
        Py.orElse (some (s.text .anthropicModel)) ((environ "ANTHROPIC_MODEL").getD "claude-sonnet-4-20250514")
    | "gemini" => Py.orElse (some (s.text .geminiModel)) ((environ "GEMINI_MODEL").getD "gemini-2.0-flash")
    | "openrouter" => Py.orElse (some (s.text .openrouterModel)) ((environ "OPENROUTER_MODEL").getD "openrouter/auto")
    | _ => "qwen3-coder:30b"

end Host

/-! ## The clients -/

/-- A message as `chat` gets it: a dictionary with a role and a content. -/
structure Message where
  role : String
  content : String
deriving DecidableEq

/-- The dictionary. -/
def Message.json (m : Message) : Json ν := .obj [("role", .str m.role), ("content", .str m.content)]

/-- A request: where a client sends it (`none` is the address of the SDK), with which key, and what. -/
structure Request (ν : Type*) where
  url : Option String
  key : Option String
  body : Json ν

/-- `s.rstrip("/")`. -/
def rstripSlash (s : String) : String := String.ofList (s.toList.reverse.dropWhile (· = '/')).reverse

/-- `formatted`: the system prompt, if there is one, as a first message. -/
def formatted (messages : List Message) (systemPrompt : String) : List Message :=
  (if systemPrompt = "" then [] else [⟨"system", systemPrompt⟩]) ++ messages

/-- `OllamaClient`. -/
structure OllamaClient (ν : Type*) where
  model : String
  baseUrl : String
  temperature : ν
  maxTokens : ν

/-- `OllamaClient.chat`. -/
def OllamaClient.chat (c : OllamaClient ν) (messages : List Message) (systemPrompt : String) : Request ν where
  url := some (c.baseUrl ++ "/api/chat")
  key := none
  body := .obj [("model", .str c.model), ("messages", .arr ((formatted messages systemPrompt).map (·.json))),
    ("options", .obj [("temperature", .number c.temperature), ("num_predict", .number c.maxTokens)]),
    ("stream", .bool false)]

/-- `OpenAICompatibleClient`. -/
structure OpenAICompatibleClient (ν : Type*) where
  providerLabel : String
  model : String
  apiKey : String
  baseUrl : Option String
  temperature : ν
  maxTokens : ν

/-- `OpenAICompatibleClient.chat`. -/
def OpenAICompatibleClient.chat (c : OpenAICompatibleClient ν) (messages : List Message) (systemPrompt : String) :
    Request ν where
  url := c.baseUrl
  key := some c.apiKey
  body := .obj [("model", .str c.model), ("messages", .arr ((formatted messages systemPrompt).map (·.json))),
    ("temperature", .number c.temperature), ("max_tokens", .number c.maxTokens)]

/-- `AnthropicClientWrapper`. -/
structure AnthropicClientWrapper (ν : Type*) where
  model : String
  apiKey : String
  temperature : ν
  maxTokens : ν

/-- `AnthropicClientWrapper.chat`. -/
def AnthropicClientWrapper.chat (c : AnthropicClientWrapper ν) (messages : List Message) (systemPrompt : String) :
    Request ν where
  url := none
  key := some c.apiKey
  body := .obj ([("model", .str c.model), ("max_tokens", .number c.maxTokens), ("temperature", .number c.temperature),
    ("messages", .arr (messages.map (·.json)))] ++
    if systemPrompt = "" then [] else [("system", .str systemPrompt)])

/-- `GeminiClient`. -/
structure GeminiClient (ν : Type*) where
  model : String
  apiKey : String
  temperature : ν
  maxTokens : ν

/-- `{"parts": [{"text": text}]}`. -/
def parts (text : String) : String × Json ν := ("parts", .arr [.obj [("text", .str text)]])

/-- An entry of `contents`: whoever is not the assistant is the user. -/
def geminiContent (m : Message) : Json ν :=
  .obj [("role", .str (if m.role ≠ "assistant" then "user" else "model")), parts m.content]

/-- `GeminiClient.chat`. -/
def GeminiClient.chat (c : GeminiClient ν) (messages : List Message) (systemPrompt : String) : Request ν where
  url := some ("https://generativelanguage.googleapis.com/v1beta/models/" ++ c.model ++ ":generateContent")
  key := some c.apiKey
  body := .obj ([("contents", .arr (messages.map geminiContent)),
    ("generationConfig", .obj [("temperature", .number c.temperature), ("maxOutputTokens", .number c.maxTokens)])] ++
    if systemPrompt = "" then [] else [("systemInstruction", .obj [parts systemPrompt])])

/-- The client of a `PersolaLLM`. -/
inductive Client (ν : Type*)
  | ollama (c : OllamaClient ν)
  | openAICompatible (c : OpenAICompatibleClient ν)
  | anthropic (c : AnthropicClientWrapper ν)
  | gemini (c : GeminiClient ν)

namespace Client

/-- `chat`. -/
def chat : Client ν → List Message → String → Request ν
  | ollama c => c.chat
  | openAICompatible c => c.chat
  | anthropic c => c.chat
  | gemini c => c.chat

/-- `is_available`, given whether a local model answers. -/
def isAvailable (reachable : String → Bool) : Client ν → Bool
  | ollama c => reachable (c.baseUrl ++ "/api/tags")
  | openAICompatible c => c.apiKey ≠ ""
  | anthropic c => c.apiKey ≠ ""
  | gemini c => c.apiKey ≠ ""

/-- What the provider is called in the settings. -/
def provider : Client ν → String
  | ollama _ => "ollama"
  | openAICompatible c => c.providerLabel
  | anthropic _ => "anthropic"
  | gemini _ => "gemini"

end Client

/-! ## The interface -/

/-- `PersolaLLM`. -/
structure PersolaLLM (ν : Type*) where
  providerType : String
  model : String
  temperature : ν
  maxTokens : ν
  client : Client ν

namespace Host

variable (h : Host ν ω) (environ : Environ)

/-- `OllamaClient(...)` with the address of the settings. -/
def ollamaBaseUrl (s : LLMSettings ν) : String :=
  rstripSlash (Py.orElse (some (s.text .ollamaBaseUrl))
    (Py.orElse (some (s.text .ollamaBaseUrl)) ((environ "OLLAMA_BASE_URL").getD "http://127.0.0.1:11434")))

/-- `(base_url or "").rstrip("/") or None`. -/
def clientBaseUrl (baseUrl : String) : Option String :=
  if rstripSlash baseUrl = "" then none else some (rstripSlash baseUrl)

/-- `_initialize_provider`. -/
def initializeProvider (s : LLMSettings ν) (provider model : String) (temperature maxTokens : ν) :
    Except PyError (Client ν) :=
  let apiKey := h.resolvedApiKey environ s (some provider)
  match provider with
  | "openai" => .ok (.openAICompatible
      ⟨"openai", model, apiKey, clientBaseUrl (s.text .openaiBaseUrl), temperature, maxTokens⟩)
  | "openrouter" => .ok (.openAICompatible
      ⟨"openrouter", model, apiKey,
        clientBaseUrl (Py.orElse (some (s.text .openrouterBaseUrl)) "https://openrouter.ai/api/v1"), temperature, maxTokens⟩)
  | "anthropic" => .ok (.anthropic ⟨model, apiKey, temperature, maxTokens⟩)
  | "gemini" => .ok (.gemini ⟨model, apiKey, temperature, maxTokens⟩)
  | "ollama" => .ok (.ollama ⟨model, ollamaBaseUrl environ s, temperature, maxTokens⟩)
  | _ => .error .valueError

/-- The arguments of `get_llm_provider`. -/
structure LlmArgs (ν : Type*) where
  provider : String := "auto"
  model : Option String := none
  temperature : Option ν := none
  maxTokens : Option ν := none

/-- `get_llm_provider`, with the settings loaded. -/
def getLlmProvider (s : LLMSettings ν) (args : LlmArgs ν) : Except PyError (PersolaLLM ν) := do
  let provider := if args.provider = "auto" then Py.orElse (some (s.text .provider)) "ollama" else args.provider
  let providerType := h.lower provider
  let model := Py.orElse args.model (h.resolvedModel environ s (some providerType))
  let temperature := args.temperature.getD s.temperature
  let maxTokens := args.maxTokens.getD s.maxTokens
  let client ← h.initializeProvider environ s providerType model temperature maxTokens
  return { providerType, model, temperature, maxTokens, client }

end Host

/-! ## What a request tells -/

section
variable {messages messages' : List Message} {systemPrompt systemPrompt' : String}

/-- A message as Gemini gets it: from the assistant or not. -/
def Message.folded (m : Message) : Bool × String := (m.role = "assistant", m.content)

/-- The conversations that come to one request of the client. -/
def Client.SameTo (c : Client ν) (messages : List Message) (systemPrompt : String) (messages' : List Message)
    (systemPrompt' : String) : Prop :=
  match c with
  | .ollama _ | .openAICompatible _ => formatted messages systemPrompt = formatted messages' systemPrompt'
  | .anthropic _ => messages = messages' ∧ systemPrompt = systemPrompt'
  | .gemini _ => messages.map Message.folded = messages'.map Message.folded ∧ systemPrompt = systemPrompt'

theorem json_injective : Function.Injective (Message.json : Message → Json ν) := by
  rintro ⟨role, content⟩ ⟨role', content'⟩ h
  simpa [Message.json] using h

/-- The entry of `contents` for it. -/
def foldedContent (e : Bool × String) : Json ν :=
  .obj [("role", .str (if e.1 then "model" else "user")), parts e.2]

theorem geminiContent_eq : (geminiContent : Message → Json ν) = foldedContent ∘ Message.folded := by
  funext m
  unfold geminiContent foldedContent Message.folded
  by_cases hm : m.role = "assistant" <;> simp [hm]

theorem foldedContent_injective : Function.Injective (foldedContent : Bool × String → Json ν) := by
  rintro ⟨assistant, text⟩ ⟨assistant', text'⟩ h
  simp only [foldedContent, parts, Json.obj.injEq, List.cons.injEq, Prod.mk.injEq, Json.str.injEq, Json.arr.injEq] at h
  obtain ⟨⟨-, hrole⟩, ⟨-, ⟨⟨-, htext⟩, -⟩, -⟩, -⟩ := h
  cases assistant <;> cases assistant' <;> simp_all

/-- A field that is there if its text is not empty. -/
theorem optional_eq_iff (field : String → String × Json ν)
    (hfield : ∀ text text', field text = field text' ↔ text = text') (systemPrompt systemPrompt' : String) :
    (if systemPrompt = "" then [] else [field systemPrompt]) =
      (if systemPrompt' = "" then [] else [field systemPrompt']) ↔ systemPrompt = systemPrompt' := by
  by_cases hempty : systemPrompt = "" <;> by_cases hempty' : systemPrompt' = ""
  · simp [hempty, hempty']
  · simp [hempty, Ne.symm hempty', hempty']
  · simp [hempty, hempty']
  · simp [hempty, hempty', hfield]

/-- **What a request tells**, client by client. -/
theorem chat_eq_iff (c : Client ν) :
    c.chat messages systemPrompt = c.chat messages' systemPrompt' ↔
      c.SameTo messages systemPrompt messages' systemPrompt' := by
  have hjson : Function.Injective (List.map (Message.json : Message → Json ν)) :=
    List.map_injective_iff.mpr json_injective
  cases c with
  | ollama c =>
      show c.chat _ _ = c.chat _ _ ↔ formatted _ _ = formatted _ _
      rw [← hjson.eq_iff]
      simp [OllamaClient.chat]
  | openAICompatible c =>
      show c.chat _ _ = c.chat _ _ ↔ formatted _ _ = formatted _ _
      rw [← hjson.eq_iff]
      simp [OpenAICompatibleClient.chat]
  | anthropic c =>
      show c.chat _ _ = c.chat _ _ ↔ messages = messages' ∧ systemPrompt = systemPrompt'
      have hsystem := optional_eq_iff (fun text => ("system", (.str text : Json ν))) (fun text text' => by simp)
        systemPrompt systemPrompt'
      rw [← hjson.eq_iff, ← hsystem]
      simp [AnthropicClientWrapper.chat]
  | gemini c =>
      show c.chat _ _ = c.chat _ _ ↔
        messages.map Message.folded = messages'.map Message.folded ∧ systemPrompt = systemPrompt'
      have hcontents : messages.map (geminiContent : Message → Json ν) = messages'.map geminiContent ↔
          messages.map Message.folded = messages'.map Message.folded := by
        rw [geminiContent_eq, ← List.map_map, ← List.map_map]
        exact (List.map_injective_iff.mpr foldedContent_injective).eq_iff
      have hsystem := optional_eq_iff (fun text => ("systemInstruction", (.obj [parts text] : Json ν)))
        (fun text text' => by simp [parts]) systemPrompt systemPrompt'
      rw [← hcontents, ← hsystem]
      simp [GeminiClient.chat]

/-- Only the user and the assistant speak. -/
def Spoken (messages : List Message) : Prop := ∀ m ∈ messages, m.role = "user" ∨ m.role = "assistant"

theorem formatted_inj (hspoken : Spoken messages) (hspoken' : Spoken messages')
    (h : formatted messages systemPrompt = formatted messages' systemPrompt') :
    messages = messages' ∧ systemPrompt = systemPrompt' := by
  -- a message of the system is not one of theirs
  have hsystem {l : List Message} (hl : Spoken l) (text : String) : (⟨"system", text⟩ : Message) ∉ l := by
    intro hmem
    rcases hl _ hmem with h | h <;> simp at h
  unfold formatted at h
  by_cases hempty : systemPrompt = "" <;> by_cases hempty' : systemPrompt' = ""
  · rw [if_pos hempty, if_pos hempty'] at h
    exact ⟨h, hempty.trans hempty'.symm⟩
  · rw [if_pos hempty, if_neg hempty', List.nil_append] at h
    exact absurd (h ▸ List.mem_cons_self) (hsystem hspoken systemPrompt')
  · rw [if_neg hempty, if_pos hempty', List.nil_append] at h
    exact absurd (h ▸ List.mem_cons_self) (hsystem hspoken' systemPrompt)
  · rw [if_neg hempty, if_neg hempty'] at h
    obtain ⟨hfirst, hrest⟩ := List.cons.inj h
    exact ⟨hrest, congrArg Message.content hfirst⟩

theorem folded_inj (hspoken : Spoken messages) (hspoken' : Spoken messages')
    (h : messages.map Message.folded = messages'.map Message.folded) : messages = messages' := by
  induction messages generalizing messages' with
  | nil => exact (List.map_eq_nil_iff.mp h.symm).symm
  | cons m messages ih =>
      cases messages' with
      | nil => cases h
      | cons m' messages' =>
          obtain ⟨hm, hrest⟩ := List.cons.inj h
          obtain ⟨hrole, hothers⟩ := List.forall_mem_cons.mp hspoken
          obtain ⟨hrole', hothers'⟩ := List.forall_mem_cons.mp hspoken'
          obtain ⟨role, content⟩ := m
          obtain ⟨role', content'⟩ := m'
          obtain ⟨hassistant, rfl⟩ := Prod.mk.inj hm
          rw [ih hothers hothers' hrest]
          rcases hrole with rfl | rfl <;> rcases hrole' with rfl | rfl <;> simp_all

/-- **Where only the user and the assistant speak**, a request tells who says what. -/
theorem sameTo_iff_of_spoken (c : Client ν) (hspoken : Spoken messages) (hspoken' : Spoken messages') :
    c.SameTo messages systemPrompt messages' systemPrompt' ↔ messages = messages' ∧ systemPrompt = systemPrompt' := by
  cases c with
  | ollama c | openAICompatible c =>
      constructor
      · exact formatted_inj hspoken hspoken'
      · rintro ⟨rfl, rfl⟩
        rfl
  | anthropic c => exact Iff.rfl
  | gemini c =>
      refine and_congr_left fun _ => ⟨folded_inj hspoken hspoken', ?_⟩
      rintro rfl
      rfl

end

/-! ## In a chat -/

open Chat (MessageRole ChatMessage)

/-- The value of a role. -/
def roleValue : MessageRole → String
  | .user => "user"
  | .assistant => "assistant"
  | .system => "system"
  | .tool => "tool"

/-- The dictionary that `invoke_agent` makes of a message. -/
def Message.ofChat (m : ChatMessage) : Message := ⟨roleValue m.role, m.content⟩

/-- The first twenty messages of the conversation and the new one. -/
def sentFor (st : Chat.Store) (req : Chat.InvokeRequest) : List Message :=
  ((st.transcript (Chat.runtimeSessionId req)).take 20).map Message.ofChat ++ [⟨"user", req.message⟩]

theorem spoken_sentFor {st : Chat.Store} {req : Chat.InvokeRequest}
    (h : ∀ m ∈ (st.transcript (Chat.runtimeSessionId req)).take 20, m.role = .user ∨ m.role = .assistant) :
    Spoken (sentFor st req) := by
  intro m hm
  rcases List.mem_append.mp hm with hm | hm
  · obtain ⟨message, hmessage, rfl⟩ := List.mem_map.mp hm
    show roleValue message.role = "user" ∨ roleValue message.role = "assistant"
    rcases h message hmessage with hrole | hrole
    · exact .inl (congrArg roleValue hrole)
    · exact .inr (congrArg roleValue hrole)
  · rw [List.mem_singleton.mp hm]
    exact .inl rfl

section
variable {st st' : Chat.Store} {req req' : Chat.InvokeRequest} {llm llm' : Chat.Llm} {t₁ t₂ t₁' t₂' : Chat.Time}
  {messages messages' : List ChatMessage} {systemPrompt systemPrompt' : String}

/-- What an invocation sends. -/
theorem sent_eq (hst : Chat.system.Reachable st)
    (hcall : (Chat.invokeAgent st req llm t₁ t₂).chat = some (messages, systemPrompt)) :
    messages.map Message.ofChat = sentFor st req := by
  have hmessages : messages = (st.transcript (Chat.runtimeSessionId req)).take 20 ++ [⟨.user, req.message⟩] := by
    rw [Chat.invokeAgent_chat (Chat.inv_of_reachable hst) hcall, Chat.Store.transcript, List.map_take]
  rw [hmessages, List.map_append]
  rfl

/-- **Two invocations, in any chats that can arise, make one request** exactly if the heads of their conversations, the
new messages and the system prompts come to the same for the client; and exactly if they are the same, with every client,
where only the user and the assistant speak. -/
theorem request_eq_iff (hst : Chat.system.Reachable st) (hst' : Chat.system.Reachable st')
    (hcall : (Chat.invokeAgent st req llm t₁ t₂).chat = some (messages, systemPrompt))
    (hcall' : (Chat.invokeAgent st' req' llm' t₁' t₂').chat = some (messages', systemPrompt')) (c : Client ν) :
    (c.chat (messages.map Message.ofChat) systemPrompt = c.chat (messages'.map Message.ofChat) systemPrompt' ↔
      c.SameTo (sentFor st req) systemPrompt (sentFor st' req') systemPrompt') ∧
    ((∀ m ∈ (st.transcript (Chat.runtimeSessionId req)).take 20, m.role = .user ∨ m.role = .assistant) →
      (∀ m ∈ (st'.transcript (Chat.runtimeSessionId req')).take 20, m.role = .user ∨ m.role = .assistant) →
      (c.chat (messages.map Message.ofChat) systemPrompt = c.chat (messages'.map Message.ofChat) systemPrompt' ↔
        sentFor st req = sentFor st' req' ∧ systemPrompt = systemPrompt')) := by
  rw [sent_eq hst hcall, sent_eq hst' hcall', chat_eq_iff]
  refine ⟨Iff.rfl, fun hspoken hspoken' => ?_⟩
  exact sameTo_iff_of_spoken c (spoken_sentFor hspoken) (spoken_sentFor hspoken')

end

/-- A chat in which somebody has said one thing. -/
def saidOnce (role : MessageRole) : List Chat.Op := [.createSession 1 "s", .appendMessage "s" role "be kind" 1]

/-- What the system says and what the user says come to one request to Gemini, and to two requests to Anthropic. -/
theorem request_systemOrUser : ∃ st st' messages messages' systemPrompt,
    (Chat.invokeAgent st Chat.askAda Chat.answering 100 101).chat = some (messages, systemPrompt) ∧
    (Chat.invokeAgent st' Chat.askAda Chat.answering 100 101).chat = some (messages', systemPrompt) ∧
    (∀ c : GeminiClient ℚ, (Client.gemini c).chat (messages.map Message.ofChat) systemPrompt =
      (Client.gemini c).chat (messages'.map Message.ofChat) systemPrompt) ∧
    ∀ c : AnthropicClientWrapper ℚ, (Client.anthropic c).chat (messages.map Message.ofChat) systemPrompt ≠
      (Client.anthropic c).chat (messages'.map Message.ofChat) systemPrompt := by
  have hex : ((Chat.system.exec Chat.emptyChat (saidOnce .system)).any fun st =>
      (Chat.system.exec Chat.emptyChat (saidOnce .user)).any fun st' =>
        decide (sentFor st Chat.askAda = [⟨"system", "be kind"⟩, ⟨"user", "next"⟩] ∧
          sentFor st' Chat.askAda = [⟨"user", "be kind"⟩, ⟨"user", "next"⟩] ∧
          (Chat.invokeAgent st Chat.askAda Chat.answering 100 101).chat.isSome ∧
          (Chat.invokeAgent st Chat.askAda Chat.answering 100 101).chat.map (·.2) =
            (Chat.invokeAgent st' Chat.askAda Chat.answering 100 101).chat.map (·.2))) = true := by
    decide +kernel
  obtain ⟨st, hrun, hex⟩ := Runs.System.exists_of_exec hex
  obtain ⟨st', hrun', hp⟩ := Runs.System.exists_of_exec hex
  obtain ⟨hsent, hsent', hsome, hprompt⟩ := of_decide_eq_true hp
  have hst : Chat.system.Reachable st := Runs.System.reachable_of_exec ⟨rfl, rfl, rfl⟩ hrun
  have hst' : Chat.system.Reachable st' := Runs.System.reachable_of_exec ⟨rfl, rfl, rfl⟩ hrun'
  obtain ⟨⟨messages, systemPrompt⟩, hcall⟩ := Option.isSome_iff_exists.mp hsome
  rw [hcall] at hprompt
  obtain ⟨⟨messages', systemPrompt'⟩, hcall', hsame⟩ := Option.map_eq_some_iff.mp hprompt.symm
  obtain rfl : systemPrompt' = systemPrompt := hsame
  refine ⟨st, st', messages, messages', _, hcall, hcall', fun c => ?_, fun c heq => ?_⟩
  · refine (request_eq_iff hst hst' hcall hcall' (.gemini c)).1.mpr ?_
    rw [hsent, hsent']
    exact ⟨rfl, rfl⟩
  · have hsame := (request_eq_iff hst hst' hcall hcall' (.anthropic c)).1.mp heq
    rw [hsent, hsent'] at hsame
    exact absurd hsame.1 (by decide)

end Persola.Integrations
