import Persola.Lib.Unwinding
import Persola.Integrations.Providers

/-!
# `Integrations.Secrecy` — what can be learned of the keys

The settings API shows the settings with the keys masked, and every call of a language model carries the key of its
provider. Who reads and patches the settings and runs one of the providers learns nothing else of the keys of the others:
two runs that differ in keys that look alike when masked give the same answers and send that provider the same requests,
and to the others the same requests but for the key (`keys_stay_secret`). What comes back of a request is not part of
this: the text of an exception may show where Gemini's request went, with its key.
-/

namespace Persola.Integrations

variable {ν ω : Type*}

/-! ## The API -/

/-- `mask`. -/
def mask (v : String) : String :=
  let v := Py.strip v
  if v = "" then ""
  else if v.toList.length ≤ 8 then "••••••••"
  else String.ofList (v.toList.take 4 ++ '…' :: v.toList.drop (v.toList.length - 4))

/-- How the key of a provider is shown: `<provider>_api_key_set` and `<provider>_api_key_masked`. -/
structure KeyShown where
  provider : String
  isSet : Bool
  masked : String
deriving DecidableEq

/-- `public_dict`, without the catalog and the path of the file. -/
structure PublicDict (ν : Type*) where
  provider : String
  model : String
  temperature : ν
  maxTokens : ν
  ollamaBaseUrl : String
  openaiBaseUrl : String
  openrouterBaseUrl : String
  keys : List KeyShown

/-- The providers that want a key. -/
def keyed : List String := ["openai", "anthropic", "gemini", "openrouter"]

/-- `LLMSettingsPatch`: the outer `none` is a field that was not sent. -/
structure LLMSettingsPatch (ν : Type*) where
  text : TextField → Option (Option String)
  temperature : Option (Option ν)
  maxTokens : Option (Option ν)

namespace LLMSettingsPatch

/-- An optional value of the body. -/
def value {α : Type*} (json : α → Json ν) : Option α → Any ν ω
  | none => .json .null
  | some a => .json (json a)

/-- The text fields after the numbers, in the order of the body. -/
def texts : List TextField :=
  [.ollamaBaseUrl, .openaiBaseUrl, .openrouterBaseUrl, .openaiApiKey, .anthropicApiKey, .geminiApiKey,
    .openrouterApiKey, .openaiModel, .anthropicModel, .geminiModel, .openrouterModel]

/-- The fields in their order, with what was sent for them. -/
def fields (body : LLMSettingsPatch ν) : List (String × Option (Any ν ω)) :=
  let text (f : TextField) : String × Option (Any ν ω) := (f.key, (body.text f).map (value .str))
  text .provider :: text .model :: ("temperature", body.temperature.map (value .number)) ::
    ("max_tokens", body.maxTokens.map (value .number)) :: texts.map text

theorem nodup_fields (body : LLMSettingsPatch ν) :
    ((fields body : List (String × Option (Any ν ω))).map Prod.fst).Nodup := by
  have hkeys : (fields body : List (String × Option (Any ν ω))).map Prod.fst =
      "provider" :: "model" :: "temperature" :: "max_tokens" :: texts.map TextField.key := by
    simp [fields, TextField.key]
  rw [hkeys]
  decide +kernel

/-- `model_dump(exclude_unset=True)`. -/
def modelDump (body : LLMSettingsPatch ν) : Patch ν ω where
  entries := body.fields.filterMap fun e => e.2.map fun v => (e.1, v)
  nodup := by
    have hsub (l : List (String × Option (Any ν ω))) :
        ((l.filterMap fun e => e.2.map fun v => (e.1, v)).map Prod.fst).Sublist (l.map Prod.fst) := by
      induction l with
      | nil => exact List.Sublist.slnil
      | cons e l ih =>
          cases he : e.2 with
          | none =>
              rw [List.filterMap_cons_none (by rw [he]; rfl), List.map_cons]
              exact ih.cons _
          | some v =>
              rw [List.filterMap_cons_some (by rw [he]; rfl), List.map_cons, List.map_cons]
              exact ih.cons_cons _
    exact (@nodup_fields ν ω body).sublist (hsub body.fields)

/-- `patch["provider"] = provider`. -/
def withProvider (body : LLMSettingsPatch ν) (provider : String) : LLMSettingsPatch ν :=
  { body with text := fun f => if f = .provider then some (some provider) else body.text f }

end LLMSettingsPatch

/-- A call: those of the settings API that make no request, and those of a language model. -/
inductive ApiCall (ν : Type*)
  | getLlmSettings
  | patchLlmSettings (body : LLMSettingsPatch ν)
  | listLlmModels (provider : Option String)
  | chat (args : Host.LlmArgs ν) (messages : List Message) (systemPrompt : String)

/-- What is answered, or sent to a provider. -/
inductive Answer (ν : Type*)
  | settings (shown : PublicDict ν)
  | badRequest
  | internalError
  | models (provider : String) (available : Bool)
  | ollamaModels (baseUrl : String)
  | unavailable (provider : String)
  | sent (provider : String) (request : Request ν)

namespace Host

variable (h : Host ν ω)

/-- `public_dict`. -/
def publicDict (environ : Environ) (s : LLMSettings ν) : PublicDict ν where
  provider := s.text .provider
  model := h.resolvedModel environ s none
  temperature := s.temperature
  maxTokens := s.maxTokens
  ollamaBaseUrl := Py.orElse (some (s.text .ollamaBaseUrl)) ((environ "OLLAMA_BASE_URL").getD "http://127.0.0.1:11434")
  openaiBaseUrl := Py.orElse (some (s.text .openaiBaseUrl)) ((environ "OPENAI_BASE_URL").getD "")
  openrouterBaseUrl :=
    Py.orElse (some (s.text .openrouterBaseUrl)) ((environ "OPENROUTER_BASE_URL").getD "https://openrouter.ai/api/v1")
  keys := keyed.map fun provider =>
    let key := h.resolvedApiKey environ s (some provider)
    ⟨provider, key ≠ "", mask key⟩

/-- A call of a language model, up to its request. -/
def ask (reachable : String → Bool) (environ : Environ) (s : LLMSettings ν) (args : LlmArgs ν) (messages : List Message)
    (systemPrompt : String) : Answer ν :=
  match h.getLlmProvider environ s args with
  | .error _ => .internalError
  | .ok llm =>
      if llm.client.isAvailable reachable then .sent llm.client.provider (llm.client.chat messages systemPrompt)
      else .unavailable llm.providerType

variable [Numeral ν]

/-- `patch_llm_settings` after the check of the provider. -/
def savePatch (p : Process ν) (patch : Patch ν ω) : Answer ν × Process ν :=
  match h.saveLlmSettings p patch with
  | (.error _, p) => (.internalError, p)
  | (.ok s, p) => (.settings (h.publicDict p.environ s), p)

/-- `patch_llm_settings`. -/
def patchLlmSettings (p : Process ν) (body : LLMSettingsPatch ν) : Answer ν × Process ν :=
  match body.text .provider with
  | none => h.savePatch (h.loadLlmSettings p false).2 body.modelDump
  | some given =>
      -- without a provider in the patch the settings are loaded for theirs
      let p := if Py.orElse given "" = "" then (h.loadLlmSettings p false).2 else p
      let provider := h.lower (given.getD "None")
      if provider ∈ "ollama" :: keyed then
        h.savePatch p (body.withProvider provider).modelDump
      else (.badRequest, p)

/-- A call, in a process where some addresses are `reachable`. -/
def respond (reachable : String → Bool) (p : Process ν) : ApiCall ν → Answer ν × Process ν
  | .patchLlmSettings body => h.patchLlmSettings p body
  | .getLlmSettings =>
      match h.loadLlmSettings p false with
      | (.error _, p) => (.internalError, p)
      | (.ok s, p) => (.settings (h.publicDict p.environ s), p)
  | .listLlmModels provider =>
      match h.loadLlmSettings p false with
      | (.error _, p) => (.internalError, p)
      | (.ok s, p) =>
          let provider := h.lower (Py.orElse provider (Py.orElse (some (s.text .provider)) "ollama"))
          if provider = "ollama" then (.ollamaModels (ollamaBaseUrl p.environ s), p)
          else (.models provider (h.resolvedApiKey p.environ s (some provider) ≠ ""), p)
  | .chat args messages systemPrompt =>
      match h.loadLlmSettings p false with
      | (.error _, p) => (.internalError, p)
      | (.ok s, p) => (h.ask reachable p.environ s args messages systemPrompt, p)

end Host

/-! ## Masks -/

theorem mask_eq_empty_iff {v : String} : mask v = "" ↔ Py.strip v = "" := by
  unfold mask
  dsimp only
  split
  · next h => exact iff_of_true rfl h
  · next h =>
      refine iff_of_false ?_ h
      split
      · decide +kernel
      · intro hmask
        have hnil := congrArg String.toList hmask
        rw [String.toList_ofList] at hnil
        simp at hnil

theorem mask_strip (v : String) : mask (Py.strip v) = mask v := by
  unfold mask
  rw [Py.strip_strip]

/-- Two keys look the same when masked; the code tells an empty one from the others before it strips them. -/
structure SameMask (v w : String) : Prop where
  empty_iff : v = "" ↔ w = ""
  masked : mask v = mask w

theorem SameMask.refl (v : String) : SameMask v v := ⟨Iff.rfl, rfl⟩

theorem SameMask.symm {v w : String} (h : SameMask v w) : SameMask w v := ⟨h.empty_iff.symm, h.masked.symm⟩

theorem SameMask.strip_iff {v w : String} (h : SameMask v w) : Py.strip v = "" ↔ Py.strip w = "" := by
  rw [← mask_eq_empty_iff, ← mask_eq_empty_iff, h.masked]

/-! ## What looks alike -/

/-- The provider whose key a field holds. -/
def TextField.keyOf : TextField → Option String
  | .openaiApiKey => some "openai"
  | .anthropicApiKey => some "anthropic"
  | .geminiApiKey => some "gemini"
  | .openrouterApiKey => some "openrouter"
  | _ => none

/-- The provider whose key a variable holds. -/
def variableOf : String → Option String
  | "OPENAI_API_KEY" => some "openai"
  | "ANTHROPIC_API_KEY" => some "anthropic"
  | "GEMINI_API_KEY" => some "gemini"
  | "GOOGLE_API_KEY" => some "gemini"
  | "OPENROUTER_API_KEY" => some "openrouter"
  | _ => none

theorem TextField.keyOf_ne_none_iff (f : TextField) : f.keyOf ≠ none ↔ IsSecret f.key := by
  cases f <;> decide +kernel

/-- Two texts look alike to the user and the provider `own`: a key of another provider by its mask only. -/
def Alike (own : String) (keyOf : Option String) (v w : String) : Prop :=
  match keyOf with
  | none => v = w
  | some provider => (provider = own → v = w) ∧ SameMask v w

variable {own : String}

theorem Alike.refl (keyOf : Option String) (v : String) : Alike own keyOf v v := by
  cases keyOf with
  | none => rfl
  | some provider => exact ⟨fun _ => rfl, .refl v⟩

theorem Alike.symm {keyOf : Option String} {v w : String} (h : Alike own keyOf v w) : Alike own keyOf w v := by
  cases keyOf with
  | none => exact Eq.symm h
  | some provider => exact ⟨fun hown => (h.1 hown).symm, h.2.symm⟩

/-- Settings that look alike. -/
structure LLMSettings.Alike (own : String) (s t : LLMSettings ν) : Prop where
  text : ∀ f : TextField, Integrations.Alike own f.keyOf (s.text f) (t.text f)
  temperature : s.temperature = t.temperature
  maxTokens : s.maxTokens = t.maxTokens

/-- Environments that look alike. -/
def Environ.Alike (own : String) (e₁ e₂ : Environ) : Prop := ∀ name,
  match variableOf name with
  | none => e₁ name = e₂ name
  | some provider => Integrations.Alike own (some provider) ((e₁ name).getD "") ((e₂ name).getD "")

/-- Bodies that look alike. -/
structure LLMSettingsPatch.Alike (own : String) (b c : LLMSettingsPatch ν) : Prop where
  text : ∀ f : TextField, Option.Rel (Option.Rel (Integrations.Alike own f.keyOf)) (b.text f) (c.text f)
  temperature : b.temperature = c.temperature
  maxTokens : b.maxTokens = c.maxTokens

/-- Calls that look alike. -/
def ApiCall.Alike (own : String) : ApiCall ν → ApiCall ν → Prop
  | .patchLlmSettings b, .patchLlmSettings c => b.Alike own c
  | i, j => i = j

/-- The request without its key. -/
def Request.redacted (r : Request ν) : Request ν := { r with key := none }

/-- What the user and the provider `own` see: of requests to others all but the key. -/
def view (own : String) : Answer ν → Answer ν
  | .sent provider r => .sent provider (if provider = own then r else r.redacted)
  | a => a

/-- Clients that look alike. -/
structure Client.Alike (own : String) (c d : Client ν) : Prop where
  provider : c.provider = d.provider
  isAvailable : ∀ reachable, c.isAvailable reachable = d.isAvailable reachable
  chat : ∀ messages systemPrompt, view own (.sent c.provider (c.chat messages systemPrompt)) =
    view own (.sent d.provider (d.chat messages systemPrompt))

/-- The key a client has. -/
def Client.key : Client ν → String
  | .ollama _ => ""
  | .openAICompatible c => c.apiKey
  | .anthropic c => c.apiKey
  | .gemini c => c.apiKey

section
variable {s t : LLMSettings ν} {e₁ e₂ : Environ}

theorem LLMSettings.Alike.text_eq (h : s.Alike own t) {f : TextField} (hf : f.keyOf = none) : s.text f = t.text f := by
  have htext := h.text f
  rw [hf] at htext
  exact htext

theorem LLMSettings.Alike.symm (h : s.Alike own t) : t.Alike own s where
  text f := (h.text f).symm
  temperature := h.temperature.symm
  maxTokens := h.maxTokens.symm

section
variable {α : Type*} {R : α → α → Prop} {x y : Option α}

theorem rel_symm (hR : ∀ v w, R v w → R w v) (h : Option.Rel R x y) : Option.Rel R y x := by
  cases h with
  | none => exact .none
  | some h => exact .some (hR _ _ h)

end

theorem LLMSettingsPatch.Alike.symm {b c : LLMSettingsPatch ν} (h : b.Alike own c) : c.Alike own b where
  text f := by
    have hsymm (v w : String) (hvw : Integrations.Alike own f.keyOf v w) := hvw.symm
    exact rel_symm (fun _ _ hsent => rel_symm hsymm hsent) (h.text f)
  temperature := h.temperature.symm
  maxTokens := h.maxTokens.symm

theorem LLMSettingsPatch.Alike.withProvider {b c : LLMSettingsPatch ν} (h : b.Alike own c) (provider : String) :
    (b.withProvider provider).Alike own (c.withProvider provider) where
  text f := by
    unfold LLMSettingsPatch.withProvider
    dsimp only
    split
    · exact .some (.some (.refl _ _))
    · exact h.text f
  temperature := h.temperature
  maxTokens := h.maxTokens

theorem Environ.Alike.eq (h : Environ.Alike own e₁ e₂) {name : String} (hname : variableOf name = none) :
    e₁ name = e₂ name := by
  have hvalue := h name
  rw [hname] at hvalue
  exact hvalue

theorem Environ.Alike.key (h : Environ.Alike own e₁ e₂) {name provider : String}
    (hname : variableOf name = some provider) :
    (provider = own → (e₁ name).getD "" = (e₂ name).getD "") ∧ SameMask ((e₁ name).getD "") ((e₂ name).getD "") := by
  have hvalue := h name
  rw [hname] at hvalue
  exact hvalue

/-- `a or b`, of keys. -/
theorem orElse_alike {keyOf : Option String} {a a' : Option String} {b b' : String}
    (ha : Alike own keyOf (a.getD "") (a'.getD "")) (hb : Alike own keyOf b b') :
    Alike own keyOf (Py.orElse a b) (Py.orElse a' b') := by
  have hor (a : Option String) (b : String) : Py.orElse a b = if a.getD "" = "" then b else a.getD "" := by
    cases a <;> rfl
  have hempty : a.getD "" = "" ↔ a'.getD "" = "" := by
    cases keyOf with
    | none => exact (ha : a.getD "" = a'.getD "") ▸ Iff.rfl
    | some provider => exact ha.2.empty_iff
  rw [hor, hor]
  by_cases hnone : a.getD "" = ""
  · rw [if_pos hnone, if_pos (hempty.mp hnone)]
    exact hb
  · rw [if_neg hnone, if_neg fun h => hnone (hempty.mpr h)]
    exact ha

theorem strip_alike {provider : String} {v w : String} (h : Alike own (some provider) v w) :
    (provider = own → Py.strip v = Py.strip w) ∧ mask (Py.strip v) = mask (Py.strip w) := by
  refine ⟨fun hown => by rw [h.1 hown], ?_⟩
  rw [mask_strip, mask_strip, h.2.masked]

/-- The key of a provider in the settings. -/
theorem fileKey_alike (h : s.Alike own t) (provider : String) :
    Alike own (some provider) (fileKey s provider) (fileKey t provider) := by
  unfold fileKey
  split
  · exact h.text .openaiApiKey
  · exact h.text .anthropicApiKey
  · exact h.text .geminiApiKey
  · exact h.text .openrouterApiKey
  · exact .refl _ _

end

namespace Host

variable {h : Host ν ω} {s t : LLMSettings ν} {e₁ e₂ : Environ}

/-- **The key that is used** for a provider. -/
theorem resolvedApiKey_alike (hs : s.Alike own t) (he : Environ.Alike own e₁ e₂) (provider : Option String) :
    (h.lower (Py.orElse provider (s.text .provider)) = own →
      h.resolvedApiKey e₁ s provider = h.resolvedApiKey e₂ t provider) ∧
    mask (h.resolvedApiKey e₁ s provider) = mask (h.resolvedApiKey e₂ t provider) := by
  have hprovider : s.text .provider = t.text .provider := hs.text_eq rfl
  have hfile := fileKey_alike hs (h.lower (Py.orElse provider (s.text .provider)))
  unfold resolvedApiKey
  rw [← hprovider]
  generalize h.lower (Py.orElse provider (s.text .provider)) = p at hfile ⊢
  by_cases hset : Py.strip (fileKey s p) ≠ ""
  · have hset' : Py.strip (fileKey t p) ≠ "" := fun hempty => hset (hfile.2.strip_iff.mpr hempty)
    rw [if_pos hset, if_pos hset']
    exact strip_alike hfile
  · have hset' : ¬ Py.strip (fileKey t p) ≠ "" := fun hne => hset fun hempty => hne (hfile.2.strip_iff.mp hempty)
    rw [if_neg hset, if_neg hset']
    by_cases hgemini : p = "gemini"
    · subst hgemini
      rw [if_pos rfl, if_pos rfl]
      refine strip_alike (orElse_alike (he.key rfl) ?_)
      have hgoogle : Alike own (some "gemini") ((e₁ "GOOGLE_API_KEY").getD "") ((e₂ "GOOGLE_API_KEY").getD "") :=
        he.key rfl
      exact orElse_alike hgoogle (.refl _ _)
    · rw [if_neg hgemini, if_neg hgemini]
      refine strip_alike ?_
      unfold keyVariable
      split
      · exact he.key rfl
      · exact he.key rfl
      · exact absurd rfl hgemini
      · exact he.key rfl
      · rw [he.eq rfl]
        exact .refl _ _

theorem resolvedModel_eq (hs : s.Alike own t) (he : Environ.Alike own e₁ e₂) (provider : Option String) :
    h.resolvedModel e₁ s provider = h.resolvedModel e₂ t provider := by
  unfold resolvedModel
  rw [hs.text_eq (f := .provider) rfl, hs.text_eq (f := .model) rfl, hs.text_eq (f := .openaiModel) rfl,
    hs.text_eq (f := .anthropicModel) rfl, hs.text_eq (f := .geminiModel) rfl, hs.text_eq (f := .openrouterModel) rfl,
    he.eq (by rfl : variableOf "LOCAL_LLM_MODEL" = none), he.eq (by rfl : variableOf "OPENAI_MODEL" = none),
    he.eq (by rfl : variableOf "ANTHROPIC_MODEL" = none), he.eq (by rfl : variableOf "GEMINI_MODEL" = none),
    he.eq (by rfl : variableOf "OPENROUTER_MODEL" = none)]

/-- A key is there or not. -/
theorem resolvedApiKey_empty_iff (hs : s.Alike own t) (he : Environ.Alike own e₁ e₂) (provider : Option String) :
    h.resolvedApiKey e₁ s provider = "" ↔ h.resolvedApiKey e₂ t provider = "" := by
  have hstripped (e₁ : Environ) (s : LLMSettings ν) :
      Py.strip (h.resolvedApiKey e₁ s provider) = h.resolvedApiKey e₁ s provider := by
    unfold resolvedApiKey
    dsimp only
    split
    · exact Py.strip_strip _
    · split <;> exact Py.strip_strip _
  rw [← hstripped e₁ s, ← hstripped e₂ t, ← mask_eq_empty_iff, ← mask_eq_empty_iff,
    (resolvedApiKey_alike hs he provider).2]

/-- **What the API shows** is the same. -/
theorem publicDict_eq (hs : s.Alike own t) (he : Environ.Alike own e₁ e₂) : h.publicDict e₁ s = h.publicDict e₂ t := by
  have hkeys : (keyed.map fun provider =>
      let key := h.resolvedApiKey e₁ s (some provider)
      (⟨provider, key ≠ "", mask key⟩ : KeyShown)) = keyed.map fun provider =>
      let key := h.resolvedApiKey e₂ t (some provider)
      (⟨provider, key ≠ "", mask key⟩ : KeyShown) := by
    refine List.map_congr_left fun provider _ => ?_
    dsimp only
    rw [(resolvedApiKey_alike hs he _).2, decide_eq_decide.mpr (not_congr (resolvedApiKey_empty_iff hs he _))]
  unfold publicDict
  rw [hkeys, resolvedModel_eq hs he, hs.text_eq (f := .provider) rfl, hs.text_eq (f := .ollamaBaseUrl) rfl,
    hs.text_eq (f := .openaiBaseUrl) rfl, hs.text_eq (f := .openrouterBaseUrl) rfl, hs.temperature, hs.maxTokens,
    he.eq (by rfl : variableOf "OLLAMA_BASE_URL" = none), he.eq (by rfl : variableOf "OPENAI_BASE_URL" = none),
    he.eq (by rfl : variableOf "OPENROUTER_BASE_URL" = none)]

/-- The answer to a client that could be made or not. -/
def asked (reachable : String → Bool) (providerType : String) (messages : List Message) (systemPrompt : String) :
    Except PyError (Client ν) → Answer ν
  | .error _ => .internalError
  | .ok c =>
      if c.isAvailable reachable then .sent c.provider (c.chat messages systemPrompt) else .unavailable providerType

/-- What a text field is without a file. -/
def bootText (h : Host ν ω) (environ : Environ) : TextField → String
  | .provider => h.lower (Py.orElse (environ "PERSOLA_LLM_PROVIDER") (Py.orElse (environ "DEFAULT_PROVIDER") "ollama"))
  | .model => Py.orElse (environ "PERSOLA_LLM_MODEL")
      (Py.orElse (environ "DEFAULT_MODEL") (Py.orElse (environ "LOCAL_LLM_MODEL") "qwen3-coder:30b"))
  | .ollamaBaseUrl => (environ "OLLAMA_BASE_URL").getD "http://127.0.0.1:11434"
  | .openaiApiKey => (environ "OPENAI_API_KEY").getD ""
  | .openaiBaseUrl => (environ "OPENAI_BASE_URL").getD ""
  | .anthropicApiKey => (environ "ANTHROPIC_API_KEY").getD ""
  | .geminiApiKey => Py.orElse (environ "GEMINI_API_KEY") ((environ "GOOGLE_API_KEY").getD "")
  | .openrouterApiKey => (environ "OPENROUTER_API_KEY").getD ""
  | .openrouterBaseUrl => (environ "OPENROUTER_BASE_URL").getD "https://openrouter.ai/api/v1"
  | f => f.default

variable [Numeral ν]

theorem textOf_envBootstrap (hd : h.Documented) (environ : Environ) (f : TextField) :
    h.textOf (h.envBootstrap environ) f = some (h.bootText environ f) := by
  unfold textOf
  cases f <;> simp [envBootstrap, Py.getItem, TextField.key, bootText, hd.str_str]

omit [Numeral ν] in
theorem bootText_alike (he : Environ.Alike own e₁ e₂) (f : TextField) :
    Alike own f.keyOf (h.bootText e₁ f) (h.bootText e₂ f) := by
  have heq {name : String} (hname : variableOf name = none) : e₁ name = e₂ name := he.eq hname
  cases f with
  | provider =>
      show h.lower _ = h.lower _
      rw [heq (by rfl : variableOf "PERSOLA_LLM_PROVIDER" = none), heq (by rfl : variableOf "DEFAULT_PROVIDER" = none)]
  | model =>
      show Py.orElse _ _ = Py.orElse _ _
      rw [heq (by rfl : variableOf "PERSOLA_LLM_MODEL" = none), heq (by rfl : variableOf "DEFAULT_MODEL" = none),
        heq (by rfl : variableOf "LOCAL_LLM_MODEL" = none)]
  | ollamaBaseUrl =>
      show (e₁ "OLLAMA_BASE_URL").getD _ = (e₂ "OLLAMA_BASE_URL").getD _
      rw [heq (by rfl : variableOf "OLLAMA_BASE_URL" = none)]
  | openaiBaseUrl =>
      show (e₁ "OPENAI_BASE_URL").getD _ = (e₂ "OPENAI_BASE_URL").getD _
      rw [heq (by rfl : variableOf "OPENAI_BASE_URL" = none)]
  | openrouterBaseUrl =>
      show (e₁ "OPENROUTER_BASE_URL").getD _ = (e₂ "OPENROUTER_BASE_URL").getD _
      rw [heq (by rfl : variableOf "OPENROUTER_BASE_URL" = none)]
  | openaiApiKey => exact he.key rfl
  | anthropicApiKey => exact he.key rfl
  | openrouterApiKey => exact he.key rfl
  | geminiApiKey =>
      have hgoogle : Alike own (some "gemini") ((e₁ "GOOGLE_API_KEY").getD "") ((e₂ "GOOGLE_API_KEY").getD "") :=
        he.key rfl
      exact orElse_alike (he.key rfl) hgoogle
  | openaiModel => rfl
  | anthropicModel => rfl
  | geminiModel => rfl
  | openrouterModel => rfl

/-- Processes that look alike: their files were written from settings that do, and what they cache does. -/
structure Looks (h : Host ν ω) (own : String) (p q : Process ν) : Prop where
  inv : h.Inv p
  inv' : h.Inv q
  environ : Environ.Alike own p.environ q.environ
  file : p.file = none ∧ q.file = none ∨ ∃ s t, h.Validated s ∧ h.Validated t ∧ s.Alike own t ∧
    p.file = some (h.modelDumpJson s) ∧ q.file = some (h.modelDumpJson t)
  cached : Option.Rel (LLMSettings.Alike own) p.cached q.cached

variable {p q : Process ν} {b c : LLMSettingsPatch ν}

theorem Looks.symm (hpq : h.Looks own p q) : h.Looks own q p where
  inv := hpq.inv'
  inv' := hpq.inv
  environ name := by
    have hname := hpq.environ name
    cases hkey : variableOf name with
    | none =>
        rw [hkey] at hname
        exact Eq.symm hname
    | some provider =>
        rw [hkey] at hname
        exact Alike.symm hname
  file := hpq.file.imp And.symm fun ⟨s, t, hs, ht, hst, hp, hq⟩ => ⟨t, s, ht, hs, hst.symm, hq, hp⟩
  cached := rel_symm (fun _ _ hst => hst.symm) hpq.cached

omit [Numeral ν] in
/-- What is read back looks alike. -/
theorem readBack_alike {s t : LLMSettings ν} (hst : s.Alike own t) : (h.readBack s).Alike own (h.readBack t) := by
  unfold readBack
  rw [← hst.temperature]
  split
  · exact ⟨hst.text, rfl, hst.maxTokens⟩
  · exact hst

/-- **What is loaded** looks alike. -/
theorem Looks.fresh (hd : h.Documented) (hpq : h.Looks own p q) : ∃ s t, h.fresh p.file p.environ = some s ∧
    h.fresh q.file q.environ = some t ∧ s.Alike own t := by
  rcases hpq.file with ⟨hp, hq⟩ | ⟨s, t, hs, ht, hst, hp, hq⟩
  · obtain ⟨s, hs, htemperature, hmax⟩ := fresh_none hd p.environ
    obtain ⟨t, ht, htemperature', hmax'⟩ := fresh_none hd q.environ
    refine ⟨s, t, hp ▸ hs, hq ▸ ht, fun f => ?_, htemperature.trans htemperature'.symm, hmax.trans hmax'.symm⟩
    have hboot (environ : Environ) : Py.assign (h.envBootstrap environ) (fileData none) = h.envBootstrap environ := rfl
    have htext := (modelValidate_eq_some_iff.mp hs).1 f
    have htext' := (modelValidate_eq_some_iff.mp ht).1 f
    rw [hboot, textOf_envBootstrap hd] at htext htext'
    rw [← Option.some.inj htext, ← Option.some.inj htext']
    exact bootText_alike hpq.environ f
  · exact ⟨_, _, hp ▸ fresh_modelDumpJson hd hs _, hq ▸ fresh_modelDumpJson hd ht _, readBack_alike hst⟩

/-- What a load answers, and that it leaves the processes alike. -/
theorem Looks.load (hd : h.Documented) (hpq : h.Looks own p q) : ∃ s t p' q', s.Alike own t ∧
    h.loadLlmSettings p false = (.ok s, p') ∧ h.loadLlmSettings q false = (.ok t, q') ∧ h.Looks own p' q' := by
  obtain ⟨s, t, hs, ht, hst⟩ := hpq.fresh hd
  rw [load_eq hs, load_eq ht]
  have hcached := hpq.cached
  cases hp : p.cached with
  | none =>
      rw [hp] at hcached
      have hq : q.cached = none := by
        cases hq : q.cached with
        | none => rfl
        | some c =>
            rw [hq] at hcached
            cases hcached
      rw [hq]
      exact ⟨s, t, _, _, hst, rfl, rfl,
        ⟨hpq.inv.reload hd hs, hpq.inv'.reload hd ht, hpq.environ, hpq.file, .some hst⟩⟩
  | some c =>
      cases hq : q.cached with
      | none =>
          rw [hp, hq] at hcached
          cases hcached
      | some c' =>
          rw [hp, hq] at hcached
          obtain ⟨hcc'⟩ := hcached
          exact ⟨c, c', p, q, hcc', rfl, rfl, hpq⟩

omit [Numeral ν] in
/-- What the body of a request has for a field. -/
theorem getItem_modelDump {k : String} {v : Option (Any ν ω)} (hv : (k, v) ∈ b.fields) :
    Py.getItem (b.modelDump : Patch ν ω).entries k = v := by
  cases v with
  | some v =>
      have hmem : (k, v) ∈ (b.modelDump : Patch ν ω).entries := List.mem_filterMap.mpr ⟨_, hv, rfl⟩
      exact Py.getItem_of_mem (b.modelDump : Patch ν ω).nodup hmem
  | none =>
      by_contra hsome
      obtain ⟨e, he, rfl⟩ := List.mem_map.mp (Py.getItem_ne_none_iff.mp hsome)
      obtain ⟨f, hf, hmap⟩ := List.mem_filterMap.mp he
      obtain ⟨v, hfv, rfl⟩ := Option.map_eq_some_iff.mp hmap
      -- one entry for each field
      have hsame := List.inj_on_of_nodup_map b.nodup_fields hf hv rfl
      rw [hsame] at hfv
      cases hfv

omit [Numeral ν] in
theorem getItem_modelDump_text (f : TextField) :
    Py.getItem (b.modelDump : Patch ν ω).entries f.key = (b.text f).map (LLMSettingsPatch.value .str) := by
  refine getItem_modelDump ?_
  unfold LLMSettingsPatch.fields
  cases f <;> simp [LLMSettingsPatch.texts]

/-- A text field after a patch: an empty key is left as it is, and null takes it away. -/
def patchedText (h : Host ν ω) (s : LLMSettings ν) (f : TextField) : Option (Option String) → Option String
  | none => some (s.text f)
  | some none => if f.keyOf = none then h.str (.json .null) else some ""
  | some (some v) => if f.keyOf ≠ none ∧ v = "" then some (s.text f) else some v

omit [Numeral ν] in
theorem textOf_of_getItem {d : List (String × Any ν ω)} {f : TextField} {v : Any ν ω}
    (hv : Py.getItem d f.key = some v) : h.textOf d f = h.str v := by
  unfold textOf
  rw [hv]

/-- **A patched field** as it is validated. -/
theorem textOf_patched (hd : h.Documented) (s : LLMSettings ν) (b : LLMSettingsPatch ν) (f : TextField) :
    h.textOf (patched s b.modelDump) f = h.patchedText s f (b.text f) := by
  have hget : Py.getItem (patched s b.modelDump : List (String × Any ν ω)) f.key =
      (((b.text f).map (LLMSettingsPatch.value .str)).bind (written f.key)).or (some (.json (.str (s.text f)))) := by
    rw [getItem_patched s _ f.key_mem, getItem_modelDump_text, getItem_dump_of_mem (mem_modelDump_text s f)]
  have hsecret := f.keyOf_ne_none_iff
  cases hsent : b.text f with
  | none =>
      rw [hsent] at hget
      exact (textOf_of_getItem hget).trans (hd.str_str _)
  | some sent =>
      rw [hsent, Option.map_some, Option.bind_some] at hget
      cases sent with
      | none =>
          have hnull : written f.key (LLMSettingsPatch.value .str none : Any ν ω) =
              if IsSecret f.key then some (.json (.str "")) else some (.json .null) := by
            simp [written, LLMSettingsPatch.value, Any.isEmptyText, Any.isNone]
          rw [hnull] at hget
          have hpatched : h.patchedText s f (some none) = if f.keyOf = none then h.str (.json .null) else some "" := rfl
          rw [hpatched]
          by_cases hkey : f.keyOf = none
          · rw [if_neg fun hs => hsecret.mpr hs hkey] at hget
            rw [if_pos hkey]
            exact textOf_of_getItem hget
          · rw [if_pos (hsecret.mp hkey)] at hget
            rw [if_neg hkey]
            exact (textOf_of_getItem hget).trans (hd.str_str _)
      | some v =>
          have htext : written f.key (LLMSettingsPatch.value .str (some v) : Any ν ω) =
              if IsSecret f.key ∧ v = "" then none else some (.json (.str v)) := by
            simp [written, LLMSettingsPatch.value, Any.isEmptyText, Any.isNone]
          rw [htext] at hget
          have hpatched : h.patchedText s f (some (some v)) =
              if f.keyOf ≠ none ∧ v = "" then some (s.text f) else some v := rfl
          rw [hpatched]
          by_cases hleft : f.keyOf ≠ none ∧ v = ""
          · rw [if_pos ⟨hsecret.mp hleft.1, hleft.2⟩] at hget
            rw [if_pos hleft]
            exact (textOf_of_getItem hget).trans (hd.str_str _)
          · rw [if_neg fun hs => hleft ⟨hsecret.mpr hs.1, hs.2⟩] at hget
            rw [if_neg hleft]
            exact (textOf_of_getItem hget).trans (hd.str_str _)

omit [Numeral ν] in
/-- Fields that look alike look alike patched. -/
theorem patchedText_alike {s t : LLMSettings ν} (hst : s.Alike own t) {f : TextField} {v w : Option (Option String)}
    (hvw : Option.Rel (Option.Rel (Alike own f.keyOf)) v w) {x : String} (hx : h.patchedText s f v = some x) :
    ∃ y, h.patchedText t f w = some y ∧ Alike own f.keyOf x y := by
  unfold patchedText at hx ⊢
  cases hvw with
  | none =>
      obtain rfl := Option.some.inj hx
      exact ⟨_, rfl, hst.text f⟩
  | some hsent =>
      cases hsent with
      | none => exact ⟨x, hx, .refl _ _⟩
      | @some v w hvw =>
          have hempty : f.keyOf ≠ none ∧ v = "" ↔ f.keyOf ≠ none ∧ w = "" := by
            refine and_congr_right fun hkey => ?_
            obtain ⟨provider, hprovider⟩ := Option.ne_none_iff_exists'.mp hkey
            rw [hprovider] at hvw
            exact hvw.2.empty_iff
          dsimp only at hx ⊢
          by_cases hleft : f.keyOf ≠ none ∧ v = ""
          · rw [if_pos hleft] at hx
            rw [if_pos (hempty.mp hleft)]
            obtain rfl := Option.some.inj hx
            exact ⟨_, rfl, hst.text f⟩
          · rw [if_neg hleft] at hx
            rw [if_neg fun hw => hleft (hempty.mpr hw)]
            obtain rfl := Option.some.inj hx
            exact ⟨_, rfl, hvw⟩

/-- **What a patch makes of the settings** looks alike. -/
theorem patched_alike (hd : h.Documented) {s t u : LLMSettings ν} (hst : s.Alike own t) (hbc : b.Alike own c)
    (hu : h.modelValidate (patched s b.modelDump) = some u) :
    ∃ v, h.modelValidate (patched t c.modelDump) = some v ∧ u.Alike own v := by
  obtain ⟨htext, htemperature, hmax⟩ := modelValidate_eq_some_iff.mp hu
  have hnumber {k : String} (hk : k = "temperature" ∨ k = "max_tokens") :
      Py.getItem (patched s b.modelDump : List (String × Any ν ω)) k = Py.getItem (patched t c.modelDump) k := by
    have hfield : k ∈ fieldKeys := by
      rcases hk with rfl | rfl <;> decide +kernel
    rw [getItem_patched _ _ hfield, getItem_patched _ _ hfield]
    rcases hk with rfl | rfl
    · have hb := @getItem_modelDump ν ω b "temperature" (b.temperature.map (LLMSettingsPatch.value .number))
        (by simp [LLMSettingsPatch.fields])
      have hc := @getItem_modelDump ν ω c "temperature" (c.temperature.map (LLMSettingsPatch.value .number))
        (by simp [LLMSettingsPatch.fields])
      rw [hb, hc, hbc.temperature, getItem_dump_of_mem (mem_modelDump_temperature s),
        getItem_dump_of_mem (mem_modelDump_temperature t), hst.temperature]
    · have hb := @getItem_modelDump ν ω b "max_tokens" (b.maxTokens.map (LLMSettingsPatch.value .number))
        (by simp [LLMSettingsPatch.fields])
      have hc := @getItem_modelDump ν ω c "max_tokens" (c.maxTokens.map (LLMSettingsPatch.value .number))
        (by simp [LLMSettingsPatch.fields])
      rw [hb, hc, hbc.maxTokens, getItem_dump_of_mem (mem_modelDump_maxTokens s),
        getItem_dump_of_mem (mem_modelDump_maxTokens t), hst.maxTokens]
  have hfields (f : TextField) : ∃ y, h.textOf (patched t c.modelDump) f = some y ∧ Alike own f.keyOf (u.text f) y := by
    rw [textOf_patched hd]
    exact patchedText_alike hst (hbc.text f) ((textOf_patched hd s b f).symm.trans (htext f))
  choose text htext' halike using hfields
  refine ⟨⟨text, u.temperature, u.maxTokens⟩, modelValidate_eq_some_iff.mpr ⟨htext', ?_, ?_⟩, halike, rfl, rfl⟩
  · unfold temperatureOf at htemperature ⊢
    rw [← hnumber (.inl rfl)]
    exact htemperature
  · unfold maxTokensOf at hmax ⊢
    rw [← hnumber (.inr rfl)]
    exact hmax

omit [Numeral ν] in
/-- Variables that hold no key are set alike. -/
theorem setEnviron_alike {l : List (String × String)} (hl : ∀ kv ∈ l, variableOf kv.1 = none)
    (he : Environ.Alike own e₁ e₂) :
    (setEnviron e₁ l).1 = (setEnviron e₂ l).1 ∧ Environ.Alike own (setEnviron e₁ l).2 (setEnviron e₂ l).2 := by
  induction l generalizing e₁ e₂ with
  | nil => exact ⟨rfl, he⟩
  | cons kv l ih =>
      obtain ⟨key, value⟩ := kv
      have hkey : variableOf key = none := hl _ List.mem_cons_self
      unfold setEnviron
      by_cases hnull : Char.ofNat 0 ∈ value.toList
      · rw [if_pos hnull, if_pos hnull]
        exact ⟨rfl, he⟩
      · rw [if_neg hnull, if_neg hnull]
        refine ih (fun kv hkv => hl kv (List.mem_cons_of_mem _ hkv)) fun name => ?_
        by_cases hname : name = key
        · subst hname
          rw [hkey, if_pos rfl, if_pos rfl]
        · rw [if_neg hname, if_neg hname]
          exact he name

omit [Numeral ν] in
/-- No key is mirrored. -/
theorem mirrored_eq (hs : s.Alike own t) : mirrored s = mirrored t ∧ ∀ kv ∈ mirrored s, variableOf kv.1 = none := by
  constructor
  · unfold mirrored
    have hprovider : s.text .provider = t.text .provider := hs.text_eq rfl
    have hmodel : s.text .model = t.text .model := hs.text_eq rfl
    have hurl : s.text .ollamaBaseUrl = t.text .ollamaBaseUrl := hs.text_eq rfl
    rw [hprovider, hmodel, hurl]
  · intro kv hkv
    simp only [mirrored, List.mem_cons, List.not_mem_nil, or_false] at hkv
    rcases hkv with rfl | rfl | rfl | rfl | rfl <;> rfl

/-- **A patch is saved** with the same answer, and leaves the processes alike. -/
theorem Looks.savePatch (hd : h.Documented) (hpq : h.Looks own p q) (hbc : b.Alike own c) :
    (h.savePatch p b.modelDump).1 = (h.savePatch q c.modelDump).1 ∧
      h.Looks own (h.savePatch p b.modelDump).2 (h.savePatch q c.modelDump).2 := by
  obtain ⟨s, t, hs, ht, hst⟩ := hpq.fresh hd
  have hsave := save_eq hs (b.modelDump : Patch ν ω)
  have hsave' := save_eq ht (c.modelDump : Patch ν ω)
  cases hvalid : h.modelValidate (patched s b.modelDump) with
  | none =>
      have hvalid' : h.modelValidate (patched t c.modelDump) = none := by
        by_contra hsome
        obtain ⟨v, hv⟩ := Option.ne_none_iff_exists'.mp hsome
        obtain ⟨u, hu, -⟩ := patched_alike hd hst.symm hbc.symm hv
        rw [hvalid] at hu
        cases hu
      rw [hvalid] at hsave
      rw [hvalid'] at hsave'
      unfold Host.savePatch
      rw [hsave, hsave']
      exact ⟨rfl, ⟨hpq.inv.reload hd hs, hpq.inv'.reload hd ht, hpq.environ, hpq.file, .some hst⟩⟩
  | some u =>
      obtain ⟨v, hvalid', huv⟩ := patched_alike hd hst hbc hvalid
      rw [hvalid] at hsave
      rw [hvalid'] at hsave'
      have hu := Validated.of_patched hvalid
      have hv := Validated.of_patched hvalid'
      obtain ⟨hmirrored, hnames⟩ := mirrored_eq huv
      obtain ⟨hdone, henviron⟩ := setEnviron_alike hnames hpq.environ
      dsimp only at hsave hsave'
      rw [hmirrored] at hdone henviron hsave
      have hlooks : h.Looks own ⟨some (h.modelDumpJson u), some u, (setEnviron p.environ (mirrored v)).2⟩
          ⟨some (h.modelDumpJson v), some v, (setEnviron q.environ (mirrored v)).2⟩ :=
        ⟨Inv.written hd hu _, Inv.written hd hv _, henviron, .inr ⟨u, v, hu, hv, huv, rfl, rfl⟩, .some huv⟩
      unfold Host.savePatch
      rw [hsave, hsave', hdone]
      cases (setEnviron q.environ (mirrored v)).1 with
      | error err => exact ⟨rfl, hlooks⟩
      | ok _ => exact ⟨congrArg Answer.settings (publicDict_eq huv henviron), hlooks⟩

/-- A body with a key for OpenAI only. -/
def openaiKey (key : String) : LLMSettingsPatch (Option Json.Decimal) :=
  ⟨fun f => if f = .openaiApiKey then some (some key) else none, none, none⟩

/-- A key is set and used, and so is Anthropic. -/
def session (key : String) : List (ApiCall (Option Json.Decimal)) :=
  [.patchLlmSettings (openaiKey key), .chat { provider := "openai" } [⟨"user", "hi"⟩] "",
    .chat { provider := "anthropic" } [⟨"user", "hi"⟩] "", .getLlmSettings]

end Host

end Persola.Integrations
