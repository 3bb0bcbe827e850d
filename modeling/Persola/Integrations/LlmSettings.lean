import Persola.Lib.Numbers
import Persola.Lib.Runs
import Mathlib.Data.Rat.Defs
import Mathlib.Algebra.Order.Ring.Rat

/-!
# `Integrations.LlmSettings` — the settings file of the language models

`load_llm_settings` puts the file over what the environment says and keeps what it has read;
`save_llm_settings` puts a patch over a fresh load, validates, writes the file and mirrors some of it to the environment.
What pydantic makes of the value of a field, and how it writes the settings as JSON, is a parameter (`Host`), with what
is documented of it beside it (`Host.Documented`).
-/

namespace Persola.Integrations

/-! ## Settings -/

/-- A value of a patch: one that JSON has, or another object. -/
inductive Any (ν ω : Type*)
  | json (v : Json ν)
  | object (o : ω)

namespace Any

variable {ν ω : Type*}

/-- `value == ""`. -/
def isEmptyText : Any ν ω → Bool
  | .json (.str s) => s = ""
  | _ => false

/-- `value is None`. -/
def isNone : Any ν ω → Bool
  | .json .null => true
  | _ => false

end Any

/-- The fields of `LLMSettings` that are texts. -/
inductive TextField
  | provider | model | ollamaBaseUrl | openaiApiKey | openaiBaseUrl | openaiModel | anthropicApiKey | anthropicModel
  | geminiApiKey | geminiModel | openrouterApiKey | openrouterBaseUrl | openrouterModel
deriving DecidableEq

namespace TextField

/-- The name of the field. -/
def key : TextField → String
  | provider => "provider"
  | model => "model"
  | ollamaBaseUrl => "ollama_base_url"
  | openaiApiKey => "openai_api_key"
  | openaiBaseUrl => "openai_base_url"
  | openaiModel => "openai_model"
  | anthropicApiKey => "anthropic_api_key"
  | anthropicModel => "anthropic_model"
  | geminiApiKey => "gemini_api_key"
  | geminiModel => "gemini_model"
  | openrouterApiKey => "openrouter_api_key"
  | openrouterBaseUrl => "openrouter_base_url"
  | openrouterModel => "openrouter_model"

/-- Its default. -/
def default : TextField → String
  | provider => "ollama"
  | model => "qwen3-coder:30b"
  | ollamaBaseUrl => "http://127.0.0.1:11434"
  | openaiModel => "gpt-4o-mini"
  | anthropicModel => "claude-sonnet-4-20250514"
  | geminiModel => "gemini-2.0-flash"
  | openrouterBaseUrl => "https://openrouter.ai/api/v1"
  | openrouterModel => "openrouter/auto"
  | openaiApiKey | openaiBaseUrl | anthropicApiKey | geminiApiKey | openrouterApiKey => ""

/-- The text fields after the numbers. -/
def others : List TextField :=
  [ollamaBaseUrl, openaiApiKey, openaiBaseUrl, openaiModel, anthropicApiKey, anthropicModel, geminiApiKey, geminiModel,
    openrouterApiKey, openrouterBaseUrl, openrouterModel]

theorem mem_others (f : TextField) : f = provider ∨ f = model ∨ f ∈ others := by
  cases f <;> decide

end TextField

/-- `LLMSettings`. -/
structure LLMSettings (ν : Type*) where
  text : TextField → String
  temperature : ν
  maxTokens : ν

/-- The names of the fields, in their order. -/
def fieldKeys : List String :=
  TextField.provider.key :: TextField.model.key :: "temperature" :: "max_tokens" :: TextField.others.map TextField.key

theorem nodup_fieldKeys : fieldKeys.Nodup := by decide +kernel

theorem TextField.key_mem (f : TextField) : f.key ∈ fieldKeys := by
  rcases f.mem_others with rfl | rfl | h
  · exact List.mem_cons_self
  · exact List.mem_cons_of_mem _ List.mem_cons_self
  · exact List.mem_append_right [_, _, _, _] (List.mem_map_of_mem h)

/-- `model_dump`. -/
def LLMSettings.modelDump {ν : Type*} (s : LLMSettings ν) : List (String × Json ν) :=
  let entry (f : TextField) : String × Json ν := (f.key, .str (s.text f))
  entry .provider :: entry .model :: ("temperature", .number s.temperature) :: ("max_tokens", .number s.maxTokens) ::
    TextField.others.map entry

/-- What the code runs on: `str.lower`, the numbers of Python, pydantic. -/
structure Host (ν ω : Type*) where
  lower : String → String
  value : ν → FloatValue
  literal : ℚ → ν
  /-- The value of a field of type `str`, unless it is refused. -/
  str : Any ν ω → Option String
  /-- The value of a field of type `float`, unless it is refused. -/
  float : Any ν ω → Option ν
  /-- The value of a field of type `int`, unless it is refused. -/
  int : Any ν ω → Option ν
  /-- `model_dump_json(indent=2)`. -/
  modelDumpJson : LLMSettings ν → List Char

namespace Host

variable {ν ω : Type*} (h : Host ν ω) (d : List (String × Any ν ω))

/-- `ge=lower, le=upper`: what is less or greater is refused, and `nan` is neither. -/
def within (lower upper : ℚ) (x : ν) : Bool :=
  match h.value x with
  | .finite q => lower ≤ q ∧ q ≤ upper
  | .inf | .negInf => false
  | .nan => true

/-- A text field of the data, with its default. -/
def textOf (f : TextField) : Option String :=
  match Py.getItem d f.key with
  | none => some f.default
  | some v => h.str v

/-- The temperature of the data. -/
def temperatureOf : Option ν :=
  match Py.getItem d "temperature" with
  | none => some (h.literal (7/10))
  | some v => (h.float v).filter (h.within 0 2)

/-- `max_tokens` of the data. -/
def maxTokensOf : Option ν :=
  match Py.getItem d "max_tokens" with
  | none => some (h.literal 2000)
  | some v => (h.int v).filter (h.within 1 128000)

/-- `LLMSettings.model_validate`: what is no field is ignored, and one field that is refused is enough to raise. -/
def modelValidate : Option (LLMSettings ν) := do
  let temperature ← h.temperatureOf d
  let maxTokens ← h.maxTokensOf d
  if (.provider :: .model :: TextField.others).all fun f => (h.textOf d f).isSome then
    some ⟨fun f => (h.textOf d f).getD "", temperature, maxTokens⟩
  else none

end Host

/-! ## Loading and saving -/

/-- What is raised. -/
inductive PyError
  | validationError
  | valueError
deriving DecidableEq

/-- `os.environ`. -/
abbrev Environ := String → Option String

/-- A process: `DEFAULT_SETTINGS_PATH` when there is a file, `_cached`, and its environment. -/
structure Process (ν : Type*) where
  file : Option (List Char)
  cached : Option (LLMSettings ν)
  environ : Environ

/-- A patch: a dictionary. -/
structure Patch (ν ω : Type*) where
  entries : List (String × Any ν ω)
  nodup : (entries.map Prod.fst).Nodup

/-- `key.endswith("_api_key")`. -/
def IsSecret (key : String) : Prop := "_api_key".toList <:+ key.toList

instance (key : String) : Decidable (IsSecret key) := inferInstanceAs (Decidable (_ <:+ _))

namespace Host

variable {ν ω : Type*} [Numeral ν] (h : Host ν ω)

/-- `_env_bootstrap`. -/
def envBootstrap (environ : Environ) : List (String × Any ν ω) :=
  let provider := h.lower (Py.orElse (environ "PERSOLA_LLM_PROVIDER") (Py.orElse (environ "DEFAULT_PROVIDER") "ollama"))
  let model := Py.orElse (environ "PERSOLA_LLM_MODEL")
    (Py.orElse (environ "DEFAULT_MODEL") (Py.orElse (environ "LOCAL_LLM_MODEL") "qwen3-coder:30b"))
  let entry (f : TextField) (s : String) : String × Any ν ω := (f.key, .json (.str s))
  [entry .provider provider, entry .model model,
    entry .ollamaBaseUrl ((environ "OLLAMA_BASE_URL").getD "http://127.0.0.1:11434"),
    entry .openaiApiKey ((environ "OPENAI_API_KEY").getD ""),
    entry .openaiBaseUrl ((environ "OPENAI_BASE_URL").getD ""),
    entry .anthropicApiKey ((environ "ANTHROPIC_API_KEY").getD ""),
    entry .geminiApiKey (Py.orElse (environ "GEMINI_API_KEY") ((environ "GOOGLE_API_KEY").getD "")),
    entry .openrouterApiKey ((environ "OPENROUTER_API_KEY").getD ""),
    entry .openrouterBaseUrl ((environ "OPENROUTER_BASE_URL").getD "https://openrouter.ai/api/v1")]

/-- The entries of the file that are not `None`; none where the file is missing or cannot be read. -/
def fileData (file : Option (List Char)) : List (String × Any ν ω) :=
  match file.bind Json.loads with
  | some (.obj fields) => (fields.map fun kv => (kv.1, Any.json kv.2)).filter fun kv => !kv.2.isNone
  | _ => []

/-- `load_llm_settings`. -/
def loadLlmSettings (p : Process ν) (force : Bool) : Except PyError (LLMSettings ν) × Process ν :=
  match if force then none else p.cached with
  | some cached => (.ok cached, p)
  | none =>
      match h.modelValidate (Py.assign (h.envBootstrap p.environ) (fileData p.file)) with
      | none => (.error .validationError, p)
      | some settings => (.ok settings, { p with cached := some settings })

/-- One entry of a patch. -/
def patchEntry (current : List (String × Any ν ω)) (e : String × Any ν ω) : List (String × Any ν ω) :=
  if IsSecret e.1 ∧ e.2.isEmptyText then current
  else if e.2.isNone ∧ IsSecret e.1 then Py.setItem current e.1 (.json (.str ""))
  else if e.1 ∈ current.map Prod.fst then Py.setItem current e.1 e.2
  else current

/-- The dump of the settings with the patch over it. -/
def patched (current : LLMSettings ν) (patch : Patch ν ω) : List (String × Any ν ω) :=
  patch.entries.foldl patchEntry (current.modelDump.map fun kv => (kv.1, .json kv.2))

/-- Assignments to `os.environ`, up to the first that raises: no value may have a null character. -/
def setEnviron (environ : Environ) : List (String × String) → Except PyError Unit × Environ
  | [] => (.ok (), environ)
  | (key, value) :: rest =>
      if Char.ofNat 0 ∈ value.toList then (.error .valueError, environ)
      else setEnviron (fun k => if k = key then some value else environ k) rest

/-- What is mirrored. -/
def mirrored (settings : LLMSettings ν) : List (String × String) :=
  [("OLLAMA_BASE_URL", settings.text .ollamaBaseUrl), ("DEFAULT_PROVIDER", settings.text .provider),
    ("DEFAULT_MODEL", settings.text .model), ("PERSOLA_LLM_PROVIDER", settings.text .provider),
    ("PERSOLA_LLM_MODEL", settings.text .model)]

/-- `save_llm_settings`. -/
def saveLlmSettings (p : Process ν) (patch : Patch ν ω) : Except PyError (LLMSettings ν) × Process ν :=
  match h.loadLlmSettings p true with
  | (.error e, p) => (.error e, p)
  | (.ok current, p) =>
      match h.modelValidate (patched current patch) with
      | none => (.error .validationError, p)
      | some settings =>
          let (done, environ) := setEnviron p.environ (mirrored settings)
          -- the file is there before the environment is touched
          (done.map fun _ => settings, ⟨some (h.modelDumpJson settings), some settings, environ⟩)

/-- What a program does with the settings. -/
inductive Call (ν ω : Type*)
  | save (patch : Patch ν ω)
  | load (force : Bool)

/-- Calls one after the other, from a process without a file that has read nothing. -/
def system : Runs.System (Process ν) (Call ν ω) where
  init p := p.file = none ∧ p.cached = none
  step p
    | .save patch => some (h.saveLlmSettings p patch).2
    | .load force => some (h.loadLlmSettings p force).2

end Host

end Persola.Integrations
