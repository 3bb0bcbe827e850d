import Persola.Lib.Json
import Persola.Persona.Model
import Mathlib.Algebra.Order.Floor.Ring

/-!
# `Persona.Cyrex` — a profile sent to Cyrex and pulled back

`push_persona` sends the dump of the model. `pull_persona` does not read a profile back with it, but picks the fields
it knows off the object, under several names and with defaults: every field of the dump is found under its own name
first, and the system prompt is none of those it picks. So a profile survives exactly if it has no system prompt, and
if the name that the defaults are made with is not too long itself.
-/

namespace Persola.Persona

/-! ## The dump of a profile -/

/-- The name of the field of a knob. -/
def Knob.key : Knob → String
  | .creativity => "creativity"
  | .humor => "humor"
  | .formality => "formality"
  | .verbosity => "verbosity"
  | .empathy => "empathy"
  | .confidence => "confidence"
  | .openness => "openness"
  | .conscientiousness => "conscientiousness"
  | .extraversion => "extraversion"
  | .agreeableness => "agreeableness"
  | .neuroticism => "neuroticism"
  | .reasoningDepth => "reasoning_depth"
  | .stepByStep => "step_by_step"
  | .creativityInReasoning => "creativity_in_reasoning"
  | .synthetics => "synthetics"
  | .abstraction => "abstraction"
  | .patterns => "patterns"
  | .accuracy => "accuracy"
  | .reliability => "reliability"
  | .caution => "caution"
  | .consistency => "consistency"
  | .selfCorrection => "self_correction"
  | .transparency => "transparency"

/-- The default of the field of a knob. -/
def Knob.default : Knob → ℚ
  | .accuracy | .reliability | .consistency => 8/10
  | _ => 5/10

/-- `PERSONA_KNOB_GROUPS`, each under the name of its computed field. -/
def knobGroups : List (String × List Knob) :=
  [("communication_style", [.creativity, .humor, .formality, .verbosity, .empathy, .confidence]),
   ("personality_traits", [.openness, .conscientiousness, .extraversion, .agreeableness, .neuroticism]),
   ("cognitive_style",
    [.reasoningDepth, .stepByStep, .creativityInReasoning, .synthetics, .abstraction, .patterns]),
   ("reliability_profile", [.accuracy, .reliability, .caution, .consistency, .selfCorrection, .transparency])]

/-- A dictionary of JSON; its numbers are exact. -/
abbrev Payload := List (String × Json ℚ)

/-- Some knobs under their names. -/
def knobFields (p : ProfileFields) (knobs : List Knob) : Payload := knobs.map fun k => (k.key, .number (p.knobs k))

/-- `ModelSettings`. -/
def settingsFields (p : ProfileFields) : Payload :=
  [("system_prompt", .str p.systemPrompt), ("model", .str p.model), ("temperature", .number p.temperature),
   ("max_tokens", .number p.maxTokens)]

/-- The fields of a profile beside those of `ProfileFields`; times as JSON has them. -/
structure Stamp where
  id : String
  createdAt : String
  updatedAt : String
deriving DecidableEq, Repr

/-- `model_dump(mode="json")`: the fields in their order, then the computed ones. -/
def modelDump (stamp : Stamp) (p : ProfileFields) : Payload :=
  [("id", .str stamp.id), ("name", .str p.name), ("description", .str p.description),
   ("created_at", .str stamp.createdAt), ("updated_at", .str stamp.updatedAt)] ++
  knobFields p Knob.fields ++ settingsFields p ++
  (knobGroups.map fun group => (group.1, .obj (knobFields p group.2))) ++
  [("model_settings", .obj (settingsFields p)), ("knobs", .obj (knobFields p Knob.fields))]

/-! ## The client -/

structure CyrexClient where
  baseUrl : String
  apiKey : String
deriving DecidableEq, Repr

/-- `is_configured`. -/
def CyrexClient.IsConfigured (client : CyrexClient) : Prop := client.baseUrl ≠ "" ∧ client.apiKey ≠ ""

instance (client : CyrexClient) : Decidable client.IsConfigured := inferInstanceAs (Decidable (_ ∧ _))

inductive CyrexError
  | runtimeError (text : String)
  | valueError (text : String)
  | validationError
deriving DecidableEq, Repr

/-- The body that `push_persona` posts. -/
def CyrexClient.pushPersona (client : CyrexClient) (stamp : Stamp) (p : PersonaProfile) :
    Except CyrexError (Json ℚ) :=
  if client.IsConfigured then
    let dump := modelDump stamp p.toProfileFields
    .ok (.obj
      [("persona", .obj dump), ("payload_version", .str "2"),
       ("knobs", (dump.lookup "knobs").getD (.obj [])),
       ("model_settings", (dump.lookup "model_settings").getD (.obj [])), ("source", .str "persola")])
  else .error (.runtimeError "Cyrex is not configured")

/-- How Python reads numbers from texts and writes values that are no texts. -/
structure Conversions where
  float : String → Option ℚ
  int : String → Option ℤ
  str : Json ℚ → String

namespace Conversions

variable (py : Conversions)

/-- `_coerce_float`. -/
def coerceFloat (value : Json ℚ) (default : ℚ) : ℚ :=
  match value with
  | .number n => n
  | .bool b => if b then 1 else 0
  | .str s => (py.float s).getD default
  -- a `TypeError`
  | .null | .arr _ | .obj _ => default

/-- `_coerce_int`; fractions are cut off. -/
def coerceInt (value : Json ℚ) (default : ℤ) : ℤ :=
  match value with
  | .number n => if 0 ≤ n then ⌊n⌋ else ⌈n⌉
  | .bool b => if b then 1 else 0
  | .str s => (py.int s).getD default
  | .null | .arr _ | .obj _ => default

/-- `str(value)`. -/
def text : Json ℚ → String
  | .str s => s
  | v => py.str v

end Conversions

/-- `payload.get(key)`, unless it is `None`. -/
def present (payload : Payload) (key : String) : Option (Json ℚ) :=
  match payload.lookup key with
  | some .null | none => none
  | some v => some v

/-- `pick`: what stands under the first of the keys that has something. -/
def pick (payload : Payload) (keys : List String) : Option (Json ℚ) := keys.findSome? (present payload)

/-- A dictionary in the payload, or an empty one. -/
def dictUnder (payload : Payload) (key : String) : Payload :=
  match payload.lookup key with
  | some (.obj fields) => fields
  | _ => []

/-- `PersonaProfile(name=name)`. -/
def defaultFields (name : String) : ProfileFields where
  name := name
  description := ""
  knobs := Knob.default
  systemPrompt := ""
  model := "llama3:8b"
  temperature := 7/10
  maxTokens := 2000

/-- What `_to_persona_profile` passes to the constructor, beside the id; the system prompt is not in it. -/
def pickedFields (py : Conversions) (payload : Payload) (defaults : ProfileFields) : ProfileFields where
  name := py.text ((pick payload ["name", "title", "agent_name"]).getD (.str defaults.name))
  description := py.text ((pick payload ["description", "bio", "summary"]).getD (.str defaults.description))
  knobs k :=
    let raw := present payload k.key <|> present (dictUnder payload "knobs") k.key <|>
      (dictUnder payload "traits").lookup k.key
    py.coerceFloat (raw.getD .null) (defaults.knobs k)
  systemPrompt := ""
  model := py.text ((pick payload ["model", "llm_model"]).getD (.str defaults.model))
  temperature := py.coerceFloat ((pick payload ["temperature"]).getD (.number defaults.temperature))
    defaults.temperature
  maxTokens := py.coerceInt ((pick payload ["max_tokens", "max_output_tokens"]).getD (.number defaults.maxTokens))
    defaults.maxTokens

/-- A profile with its id. -/
structure Pulled where
  id : String
  profile : PersonaProfile

/-- `_to_persona_profile`. -/
def toPersonaProfile (py : Conversions) (payload : Payload) (cyrexId : String) : Except CyrexError Pulled :=
  let defaults := defaultFields ("Cyrex Agent " ++ cyrexId)
  -- the defaults are dumped from a profile, which is validated like any other
  if defaults.Valid then
    let fields := pickedFields py payload defaults
    if h : fields.Valid then
      .ok ⟨py.text ((pick payload ["id", "cyrex_id"]).getD (.str cyrexId)), fields, h⟩
    else .error .validationError
  else .error .validationError

/-- `_extract_persona_payload`. -/
def extractPersonaPayload (data : Json ℚ) : Json ℚ :=
  match data with
  | .obj fields =>
      let wrapped := ["persona", "agent", "profile", "data"].findSome? fun key =>
        match fields.lookup key with
        | some (.obj inner) => some (Json.obj inner)
        | _ => none
      wrapped.getD data
  | _ => data

/-- `pull_persona`, on the answer of the service. -/
def CyrexClient.pullPersona (client : CyrexClient) (py : Conversions) (cyrexId : String) (data : Json ℚ) :
    Except CyrexError Pulled :=
  if client.IsConfigured then
    match extractPersonaPayload data with
    | .obj candidate => toPersonaProfile py candidate cyrexId
    | _ => .error (.valueError "Cyrex import did not return a persona payload")
  else .error (.runtimeError "Cyrex is not configured")

/-! ## The round trip -/

section
variable {client : CyrexClient} {py : Conversions} {stamp : Stamp} {p : PersonaProfile} {fields : ProfileFields}
  {cyrexId : String} {sent data : Json ℚ}

/-- Every knob is found under its own name. -/
theorem present_knob (stamp : Stamp) (fields : ProfileFields) (k : Knob) :
    present (modelDump stamp fields) k.key = some (.number (fields.knobs k)) := by
  cases k <;> rfl

theorem coerceInt_intCast (py : Conversions) (n default : ℤ) : py.coerceInt (.number n) default = n := by
  unfold Conversions.coerceInt
  dsimp only
  split
  · exact Int.floor_intCast n
  · exact Int.ceil_intCast n

/-- **What is picked off the dump of a profile** is the profile without its system prompt. -/
theorem pickedFields_modelDump (py : Conversions) (stamp : Stamp) (fields defaults : ProfileFields) :
    pickedFields py (modelDump stamp fields) defaults = { fields with systemPrompt := "" } := by
  have hknobs : (pickedFields py (modelDump stamp fields) defaults).knobs = fields.knobs := by
    funext k
    unfold pickedFields
    dsimp only
    rw [present_knob]
    rfl
  have htokens : (pickedFields py (modelDump stamp fields) defaults).maxTokens = fields.maxTokens :=
    coerceInt_intCast py fields.maxTokens defaults.maxTokens
  calc pickedFields py (modelDump stamp fields) defaults
      = { pickedFields py (modelDump stamp fields) defaults with
          knobs := (pickedFields py (modelDump stamp fields) defaults).knobs
          maxTokens := (pickedFields py (modelDump stamp fields) defaults).maxTokens } := rfl
    _ = { fields with systemPrompt := "" } := by
        rw [hknobs, htokens]
        rfl

/-- The defaults are valid exactly if their name is not too long. -/
theorem defaultFields_valid_iff {name : String} : (defaultFields name).Valid ↔ name.length ≤ 200 := by
  constructor
  · exact fun h => h.name_length
  · intro hname
    refine ⟨hname, ?_, fun k _ => ?_, by norm_num [defaultFields], by norm_num [defaultFields]⟩
    · show "".length ≤ 2000
      decide
    · show 0 ≤ k.default ∧ k.default ≤ 1
      cases k <;> norm_num [Knob.default]

/-- The validation of a profile does not look at its system prompt. -/
def PersonaProfile.unprompted (p : PersonaProfile) : PersonaProfile where
  toProfileFields := { p.toProfileFields with systemPrompt := "" }
  valid := ⟨p.valid.name_length, p.valid.description_length, p.valid.knobs_range, p.valid.temperature_range,
    p.valid.maxTokens_range⟩

theorem toPersonaProfile_modelDump (py : Conversions) (stamp : Stamp) (p : PersonaProfile) (cyrexId : String) :
    toPersonaProfile py (modelDump stamp p.toProfileFields) cyrexId =
      if ("Cyrex Agent " ++ cyrexId).length ≤ 200 then .ok ⟨stamp.id, p.unprompted⟩ else .error .validationError := by
  have hpicked := pickedFields_modelDump py stamp p.toProfileFields
    (defaultFields ("Cyrex Agent " ++ cyrexId))
  unfold toPersonaProfile
  dsimp only
  by_cases hname : ("Cyrex Agent " ++ cyrexId).length ≤ 200
  · rw [if_pos (defaultFields_valid_iff.mpr hname), if_pos hname]
    have hvalid := p.unprompted.valid
    generalize pickedFields py (modelDump stamp p.toProfileFields) (defaultFields ("Cyrex Agent " ++ cyrexId)) = picked
      at hpicked ⊢
    subst hpicked
    exact dif_pos hvalid
  · rw [if_neg (mt defaultFields_valid_iff.mp hname), if_neg hname]

/-- An object under the key `persona` is what is read of an answer. -/
theorem extractPersonaPayload_eq {inner : Payload} (h : data.get? "persona" = some (.obj inner)) :
    extractPersonaPayload data = .obj inner := by
  cases data with
  | obj outer =>
      have hlookup : outer.lookup "persona" = some (.obj inner) := h
      unfold extractPersonaPayload
      dsimp only
      rw [List.findSome?_cons, hlookup]
      rfl
  | _ => cases h

/-- **A profile that is sent and handed back unchanged is pulled as it was** exactly if it has no system prompt and
the id leaves the name of the defaults short enough. -/
theorem pulled_back_iff (hclient : client.IsConfigured) (hsent : client.pushPersona stamp p = .ok sent)
    (hdata : data.get? "persona" = sent.get? "persona") :
    (∃ pulled, client.pullPersona py cyrexId data = .ok pulled ∧
      pulled.profile.toProfileFields = p.toProfileFields) ↔
      p.systemPrompt = "" ∧ ("Cyrex Agent " ++ cyrexId).length ≤ 200 := by
  have hdump : data.get? "persona" = some (.obj (modelDump stamp p.toProfileFields)) := by
    rw [CyrexClient.pushPersona, if_pos hclient] at hsent
    rw [hdata, ← Except.ok.inj hsent]
    rfl
  rw [CyrexClient.pullPersona, if_pos hclient, extractPersonaPayload_eq hdump]
  dsimp only
  rw [toPersonaProfile_modelDump]
  split
  · next hname =>
      constructor
      · rintro ⟨pulled, hpulled, hsame⟩
        obtain rfl := Except.ok.inj hpulled
        exact ⟨(congrArg ProfileFields.systemPrompt hsame).symm, hname⟩
      · rintro ⟨hprompt, -⟩
        refine ⟨_, rfl, ?_⟩
        show { p.toProfileFields with systemPrompt := "" } = p.toProfileFields
        rw [← hprompt]
  · next hname =>
      refine iff_of_false ?_ fun h => hname h.2
      rintro ⟨pulled, hpulled, -⟩
      cases hpulled

end

/-! ## A persona with a prompt of its own -/

/-- A profile with the defaults. -/
def plainProfile : PersonaProfile := ⟨defaultFields "Ada", defaultFields_valid_iff.mpr (by decide)⟩

/-- The same with a system prompt. -/
def promptedProfile : PersonaProfile where
  toProfileFields := { defaultFields "Ada" with systemPrompt := "You are Ada." }
  valid := ⟨plainProfile.valid.name_length, plainProfile.valid.description_length, plainProfile.valid.knobs_range,
    plainProfile.valid.temperature_range, plainProfile.valid.maxTokens_range⟩

def localCyrex : CyrexClient := ⟨"http://localhost:8000", "key"⟩

/-- Texts are taken for no numbers. -/
def noNumbers : Conversions := ⟨fun _ => none, fun _ => none, fun _ => ""⟩

/-- What was sent, as it was sent. -/
def handedBack (p : PersonaProfile) : Json ℚ :=
  .obj [("persona", .obj (modelDump ⟨"p1", "2024-01-01T00:00:00", "2024-01-01T00:00:00"⟩ p.toProfileFields))]

theorem plain_profile_pulled : ∃ pulled,
    localCyrex.pullPersona noNumbers "p1" (handedBack plainProfile) = .ok pulled ∧
      pulled.profile.toProfileFields = plainProfile.toProfileFields := by
  have hclient : localCyrex.IsConfigured := by decide
  exact (pulled_back_iff hclient rfl rfl).mpr ⟨rfl, by decide⟩

/-- **A system prompt is lost.** -/
theorem prompt_not_pulled : ¬ ∀ (client : CyrexClient) (py : Conversions) (stamp : Stamp) (p : PersonaProfile)
    (sent data : Json ℚ), client.IsConfigured → client.pushPersona stamp p = .ok sent →
    data.get? "persona" = sent.get? "persona" →
    ∃ pulled, client.pullPersona py stamp.id data = .ok pulled ∧
      pulled.profile.toProfileFields = p.toProfileFields := by
  intro hall
  obtain ⟨pulled, hpulled, hsame⟩ := hall localCyrex noNumbers ⟨"p1", "2024-01-01T00:00:00", "2024-01-01T00:00:00"⟩
    promptedProfile _ (handedBack promptedProfile) (by decide) rfl rfl
  have hprompt := congrArg ProfileFields.systemPrompt hsame
  have hlost : localCyrex.pullPersona noNumbers "p1" (handedBack promptedProfile) =
      .ok ⟨"p1", promptedProfile.unprompted⟩ := by
    unfold CyrexClient.pullPersona
    rw [if_pos (by decide), extractPersonaPayload_eq rfl]
    exact (toPersonaProfile_modelDump ..).trans (if_pos (by decide))
  obtain rfl := Except.ok.inj (hlost.symm.trans hpulled)
  exact absurd hprompt (by decide)

end Persola.Persona
