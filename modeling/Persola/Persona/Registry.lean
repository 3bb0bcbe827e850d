import Persola.Lib.Table
import Persola.Persona.Engine
import Persola.Persona.Presets

/-!
# `Persona.Registry` — the personas of the API and their version history

The tables `personas` and `persona_versions` and the endpoints that write them, each one transaction: `none` is
an error response, after which nothing is committed. Persona rows get fresh ids whatever id a profile
carries; names need not be unique.
-/

namespace Persola.Persona

/-! ## Rows -/

/-- `PersonaModel.settings_values`. -/
structure Settings where
  systemPrompt : String
  model : String
  temperature : ℚ
  maxTokens : ℤ
deriving DecidableEq, Repr

def PersonaModel.settingsValues (m : PersonaModel) : Settings where
  systemPrompt := Py.orElse m.systemPrompt ""
  model := m.model
  temperature := m.temperature
  maxTokens := m.maxTokens

/-- `PersonaVersionSource`. -/
inductive PersonaVersionSource
  | manual | preset | analysis | blend | imported | cyrex
deriving DecidableEq, Repr

/-- A row of `persona_versions`. -/
structure PersonaVersionModel where
  personaId : PersonaId
  versionNumber : ℕ
  source : PersonaVersionSource
  knobSnapshot : Knob → ℚ
  settingsSnapshot : Settings

/-- What the columns of `personas` admit. -/
structure PersonaModel.Storable (m : PersonaModel) : Prop where
  name_length : m.name.length ≤ 255
  model_length : m.model.length ≤ 100
  knobs_range : ∀ k ∈ Knob.fields, 0 ≤ m.knobs k ∧ m.knobs k ≤ 1
  temperature_range : 0 ≤ m.temperature ∧ m.temperature ≤ 2
  maxTokens_range : 1 ≤ m.maxTokens ∧ m.maxTokens ≤ 32000

instance (m : PersonaModel) : Decidable m.Storable :=
  decidable_of_iff
    (m.name.length ≤ 255 ∧ m.model.length ≤ 100 ∧ (∀ k ∈ Knob.fields, 0 ≤ m.knobs k ∧ m.knobs k ≤ 1) ∧
      (0 ≤ m.temperature ∧ m.temperature ≤ 2) ∧ (1 ≤ m.maxTokens ∧ m.maxTokens ≤ 32000))
    ⟨fun ⟨h1, h2, h3, h4, h5⟩ => ⟨h1, h2, h3, h4, h5⟩,
     fun ⟨h1, h2, h3, h4, h5⟩ => ⟨h1, h2, h3, h4, h5⟩⟩

/-- `PersonaModel.from_profile`, for a row that gets the id `id`. -/
def PersonaModel.fromProfile (id : PersonaId) (profile : ProfileFields) (isPreset : Bool) :
    PersonaModel where
  id := id
  name := profile.name
  description := some profile.description
  knobs := profile.knobs
  model := profile.model
  systemPrompt := some profile.systemPrompt
  temperature := profile.temperature
  maxTokens := profile.maxTokens
  isPreset := isPreset

/-! ## Repositories -/

/-- The tables; `fresh` is the next unused id. -/
structure Registry where
  personas : List PersonaModel
  versions : List PersonaVersionModel
  fresh : PersonaId

namespace Registry

/-- `PersonaRepository.get`. -/
def get (r : Registry) (id : PersonaId) : Option PersonaModel := r.personas.find? (·.id = id)

/-- The personas of this name. -/
def named (r : Registry) (name : String) : List PersonaModel := r.personas.filter (·.name = name)

/-- `PersonaRepository.get_by_name`; the outer `none` is `MultipleResultsFound`. -/
def getByName (r : Registry) (name : String) : Option (Option PersonaModel) :=
  match r.named name with
  | [] => some none
  | [persona] => some (some persona)
  | _ => none

/-- `PersonaRepository.create` of a row made from a profile. -/
def create (r : Registry) (profile : ProfileFields) (isPreset : Bool) : Option (PersonaModel × Registry) :=
  let persona := PersonaModel.fromProfile r.fresh profile isPreset
  if persona.Storable then
    some (persona, { r with personas := r.personas ++ [persona], fresh := r.fresh + 1 })
  else none

/-- Change the row of a persona. -/
def set (r : Registry) (id : PersonaId) (f : PersonaModel → PersonaModel) : Registry :=
  { r with personas := r.personas.map fun p => if p.id = id then f p else p }

/-- `PersonaRepository.update`. -/
def update (r : Registry) (id : PersonaId) (data : PersonaModel → PersonaModel) :
    Option (PersonaModel × Registry) := do
  let persona ← r.get id
  if (data persona).Storable then return (data persona, r.set id data) else none

/-- `PersonaRepository.delete`; the versions of the persona go with it. -/
def delete (r : Registry) (id : PersonaId) : Option Registry := do
  let _ ← r.get id
  return { r with
    personas := r.personas.filter (·.id ≠ id)
    versions := r.versions.filter (·.personaId ≠ id) }

/-- The versions of a persona, in the order they were recorded. -/
def versionsOf (r : Registry) (id : PersonaId) : List PersonaVersionModel :=
  r.versions.filter (·.personaId = id)

/-- `PersonaVersionRepository.get_latest_version_number`. -/
def getLatestVersionNumber (r : Registry) (id : PersonaId) : ℕ :=
  ((r.versionsOf id).map (·.versionNumber)).max?.getD 0

/-- `_record_persona_version`; it raises when the row does not validate as a profile. -/
def recordPersonaVersion (r : Registry) (persona : PersonaModel) (source : PersonaVersionSource) :
    Option Registry := do
  let profile ← persona.toProfile
  let version : PersonaVersionModel :=
    { personaId := persona.id
      versionNumber := r.getLatestVersionNumber persona.id + 1
      source
      knobSnapshot := profile.knobs
      settingsSnapshot := persona.settingsValues }
  return { r with versions := r.versions ++ [version] }

/-! ## Endpoints -/

/-- Create a persona from a profile and record its first version. -/
def createFrom (r : Registry) (profile : ProfileFields) (source : PersonaVersionSource) :
    Option Registry := do
  let (created, r) ← r.create profile false
  r.recordPersonaVersion created source

/-- Change the row of a persona and record a version. -/
def updateWith (r : Registry) (id : PersonaId) (data : PersonaModel → PersonaModel)
    (source : PersonaVersionSource) : Option Registry := do
  let (updated, r) ← r.update id data
  r.recordPersonaVersion updated source

/-- `create_persona`. -/
def createPersona (r : Registry) (persona : PersonaProfile) : Option Registry :=
  r.createFrom persona.toProfileFields .manual

/-- `import_persona`. -/
def importPersona (r : Registry) (persona : PersonaProfile) : Option Registry :=
  r.createFrom persona.toProfileFields .imported

/-- `clone_persona`, with the length the request model asks of the name. -/
def clonePersona (r : Registry) (id : PersonaId) (name : String) : Option Registry := do
  if 1 ≤ name.length ∧ name.length ≤ 200 then
    let original ← r.get id
    let profile ← original.toProfile
    -- the new name is not validated again
    r.createFrom { profile.toProfileFields with name } .manual
  else none

/-- The columns `update_persona` sets: all of a profile but the system prompt. -/
def updates (persona : PersonaProfile) (m : PersonaModel) : PersonaModel :=
  { m with
    name := persona.name
    description := some persona.description
    knobs := persona.knobs
    model := persona.model
    temperature := persona.temperature
    maxTokens := persona.maxTokens }

/-- `update_persona`. -/
def updatePersona (r : Registry) (id : PersonaId) (persona : PersonaProfile) : Option Registry :=
  r.updateWith id (updates persona) .manual

/-- The columns `apply_preset` sets. -/
def presetUpdates (p : PresetName) (m : PersonaModel) : PersonaModel :=
  { m with
    name := (applyPreset p).name
    description := some (applyPreset p).description
    knobs := (applyPreset p).knobs }

/-- `apply_preset`. -/
def applyPreset (r : Registry) (id : PersonaId) (p : PresetName) : Option Registry :=
  r.updateWith id (presetUpdates p) .preset

end Registry

/-! ## Blending -/

/-- The constructor of a profile, with its validation. -/
def PersonaProfile.ofFields? (fields : ProfileFields) : Option PersonaProfile :=
  if h : fields.Valid then some ⟨fields, h⟩ else none

/-- `PersonaEngine.blend_personas`. -/
def blendPersonas (profile1 profile2 : PersonaProfile) (ratio : ℚ) : Option PersonaProfile :=
  PersonaProfile.ofFields?
    { name := "Blended: " ++ profile1.name ++ " + " ++ profile2.name
      description := "Blend of " ++ profile1.name ++ " (" ++ Py.formatWhole (ratio * 100) ++ "%) and " ++
        profile2.name ++ " (" ++ Py.formatWhole ((1 - ratio) * 100) ++ "%)"
      knobs := fun k => profile1.knobs k * (1 - ratio) + profile2.knobs k * ratio
      systemPrompt := ""
      model := profile1.model
      temperature := profile1.temperature
      maxTokens := 2000 }

/-- `PersonaEngine.blend_multiple`; `none` is a `ValueError`. -/
def blendMultiple (profiles : List PersonaProfile) (weights : List ℚ) : Option PersonaProfile :=
  match profiles with
  | [] | [_] => none
  | first :: _ =>
      if profiles.length = weights.length ∧ ∀ w ∈ weights, 0 < w then
        let normalized := weights.map (· / weights.sum)
        let parts := (profiles.zip normalized).map fun pw =>
          pw.1.name ++ " (" ++ Py.formatWhole (pw.2 * 100) ++ "%)"
        PersonaProfile.ofFields?
          { name := "Blended: " ++ ", ".intercalate (profiles.map (·.name))
            description := "Blend of " ++ ", ".intercalate parts
            knobs := fun k => ((profiles.zip normalized).map fun pw => pw.1.knobs k * pw.2).sum
            systemPrompt := ""
            model := first.model
            temperature := first.temperature
            maxTokens := first.maxTokens }
      else none

/-- The body of a request to the blend endpoint. -/
structure BlendRequest where
  persona1Id : Option PersonaId := none
  persona2Id : Option PersonaId := none
  ratio : ℚ := 1/2
  personaIds : Option (List PersonaId) := none
  weights : Option (List ℚ) := none
  name : Option String := none
  description : Option String := none

namespace Registry

/-- The profile of a persona that has to be there. -/
def profileOf (r : Registry) (id : PersonaId) : Option PersonaProfile :=
  (r.get id).bind (·.toProfile)

/-- `blend_personas`, the endpoint. -/
def blendPersonas (r : Registry) (req : BlendRequest) : Option Registry :=
  match req.personaIds with
  | some ids => do
      if ids.length = (req.weights.getD []).length then
        let profiles ← ids.mapM r.profileOf
        let blended ← blendMultiple profiles (req.weights.getD [])
        -- assigned without validation
        r.createFrom
          { blended.toProfileFields with
            name := Py.orElse req.name blended.name
            description := Py.orElse req.description blended.description } .blend
      else none
  | none => do
      let profile1 ← r.profileOf (← req.persona1Id)
      let profile2 ← r.profileOf (← req.persona2Id)
      let blended ← Persona.blendPersonas profile1 profile2 req.ratio
      r.createFrom blended.toProfileFields .blend

/-! ## Startup -/

/-- One round of `seed_presets`: the preset is looked up by its key and created if it is missing. -/
def seedPreset (r : Registry) (p : PresetName) : Option Registry := do
  match ← r.getByName p.value with
  | some _ => return r
  | none =>
      let (_, r) ← r.create { presetFields p with name := p.value } true
      return r

/-- `seed_presets(DEFAULT_PRESETS)`; `none` is an exception, and the service does not start. -/
def seedPresets (r : Registry) : Option Registry := PresetName.all.foldlM seedPreset r

end Registry

/-! ## Requests -/

/-- The requests that write personas and keep them. -/
inductive Edit
  | createPersona (persona : PersonaProfile)
  | importPersona (persona : PersonaProfile)
  | clonePersona (id : PersonaId) (name : String)
  | updatePersona (id : PersonaId) (persona : PersonaProfile)
  | applyPreset (id : PersonaId) (preset : PresetName)
  | blendPersonas (req : BlendRequest)

/-- What the endpoint of a request makes of the tables. -/
def Edit.apply (r : Registry) : Edit → Option Registry
  | createPersona persona => r.createPersona persona
  | importPersona persona => r.importPersona persona
  | clonePersona id name => r.clonePersona id name
  | updatePersona id persona => r.updatePersona id persona
  | applyPreset id preset => r.applyPreset id preset
  | blendPersonas req => r.blendPersonas req

/-- A request with its rollback: an error response leaves the tables alone. -/
def Edit.run (r : Registry) (edit : Edit) : Registry := (edit.apply r).getD r

/-- The persona a request is to change; the other requests create one. -/
def Edit.target : Edit → Option PersonaId
  | updatePersona id _ => some id
  | applyPreset id _ => some id
  | _ => none

/-- The persona a request is to change, and what it sets on the row. -/
def Edit.change : Edit → Option (PersonaId × (PersonaModel → PersonaModel))
  | updatePersona id persona => some (id, Registry.updates persona)
  | applyPreset id preset => some (id, Registry.presetUpdates preset)
  | _ => none

/-! ## What a request does

Every request that succeeds either creates one persona, or changes the row of its target; and it records one
version of that persona. -/

namespace Registry

/-- `t` is `r` with a version of `persona` recorded, as the row is now. -/
def Records (r t : Registry) (persona : PersonaModel) : Prop :=
  ∃ source, t = { r with versions := r.versions ++
    [{ personaId := persona.id
       versionNumber := r.getLatestVersionNumber persona.id + 1
       source
       knobSnapshot := persona.knobs
       settingsSnapshot := persona.settingsValues }] }

/-- `r` with a row appended, under the next id. -/
def append (r : Registry) (persona : PersonaModel) : Registry :=
  { r with personas := r.personas ++ [persona], fresh := r.fresh + 1 }

/-- `t` is `r` after a request that created a persona. -/
def Creates (r t : Registry) : Prop :=
  ∃ persona, persona.id = r.fresh ∧ (r.append persona).Records t persona

/-- `t` is `r` after a request that changed the row of a persona. -/
def Changes (r t : Registry) (id : PersonaId) : Prop :=
  ∃ persona data, r.get id = some persona ∧ (∀ m : PersonaModel, (data m).id = m.id) ∧
    (data persona).Storable ∧ (r.set id data).Records t (data persona)

/-- `t` is `r` after the request. -/
def Edited (r t : Registry) (edit : Edit) : Prop :=
  match edit.target with
  | none => r.Creates t
  | some id => r.Changes t id

variable {r t : Registry} {persona : PersonaModel} {id : PersonaId} {edit : Edit}

theorem get_id (h : r.get id = some persona) : persona.id = id := Table.key_of_find? h

/-- What is recorded are the knobs and settings of the row. -/
theorem recordPersonaVersion_eq {source : PersonaVersionSource} (h : r.recordPersonaVersion persona source = some t) :
    t = { r with versions := r.versions ++
      [{ personaId := persona.id
         versionNumber := r.getLatestVersionNumber persona.id + 1
         source
         knobSnapshot := persona.knobs
         settingsSnapshot := persona.settingsValues }] } := by
  obtain ⟨profile, hprofile, h⟩ := Option.bind_eq_some_iff.mp h
  obtain rfl := Option.some.inj h
  unfold PersonaModel.toProfile at hprofile
  split at hprofile
  · obtain rfl := Option.some.inj hprofile
    rfl
  · cases hprofile

theorem recordPersonaVersion_spec {source : PersonaVersionSource}
    (h : r.recordPersonaVersion persona source = some t) : r.Records t persona :=
  ⟨source, recordPersonaVersion_eq h⟩

theorem createFrom_spec {profile : ProfileFields} {source : PersonaVersionSource}
    (h : r.createFrom profile source = some t) : r.Creates t := by
  obtain ⟨⟨created, r'⟩, hcreate, h⟩ := Option.bind_eq_some_iff.mp h
  obtain ⟨-, hcreate⟩ := Option.ite_none_right_eq_some.mp hcreate
  obtain ⟨rfl, rfl⟩ := Prod.mk.inj (Option.some.inj hcreate)
  exact ⟨_, rfl, recordPersonaVersion_spec h⟩

theorem updateWith_spec {data : PersonaModel → PersonaModel} {source : PersonaVersionSource}
    (hdata : ∀ m, (data m).id = m.id) (h : r.updateWith id data source = some t) : r.Changes t id := by
  obtain ⟨⟨updated, r'⟩, hupdate, h⟩ := Option.bind_eq_some_iff.mp h
  obtain ⟨persona, hget, hupdate⟩ := Option.bind_eq_some_iff.mp hupdate
  obtain ⟨hstorable, hupdate⟩ := Option.ite_none_right_eq_some.mp hupdate
  obtain ⟨rfl, rfl⟩ := Prod.mk.inj (Option.some.inj hupdate)
  exact ⟨persona, data, hget, hdata, hstorable, recordPersonaVersion_spec h⟩

theorem updates_id (profile : PersonaProfile) (m : PersonaModel) : (updates profile m).id = m.id := rfl

theorem presetUpdates_id (p : PresetName) (m : PersonaModel) : (presetUpdates p m).id = m.id := rfl

/-- A request creates a persona or updates the one it is about, and no version is out of an analysis. -/
theorem writes_of_apply (h : edit.apply r = some t) : ∃ source ≠ .analysis,
    (edit.target = none ∧ ∃ profile, r.createFrom profile source = some t) ∨
      ∃ id data, edit.target = some id ∧ (∀ m : PersonaModel, (data m).id = m.id) ∧
        r.updateWith id data source = some t := by
  cases edit with
  | createPersona profile => exact ⟨.manual, by decide, .inl ⟨rfl, _, h⟩⟩
  | importPersona profile => exact ⟨.imported, by decide, .inl ⟨rfl, _, h⟩⟩
  | clonePersona id name =>
      have hclone : r.clonePersona id name = some t := h
      unfold clonePersona at hclone
      split at hclone
      · obtain ⟨original, -, hclone⟩ := Option.bind_eq_some_iff.mp hclone
        obtain ⟨profile, -, hclone⟩ := Option.bind_eq_some_iff.mp hclone
        exact ⟨.manual, by decide, .inl ⟨rfl, _, hclone⟩⟩
      · cases hclone
  | updatePersona id profile =>
      have hupdate : r.updateWith id (updates profile) .manual = some t := h
      exact ⟨.manual, by decide, .inr ⟨id, _, rfl, updates_id profile, hupdate⟩⟩
  | applyPreset id p =>
      have hupdate : r.updateWith id (presetUpdates p) .preset = some t := h
      exact ⟨.preset, by decide, .inr ⟨id, _, rfl, presetUpdates_id p, hupdate⟩⟩
  | blendPersonas req =>
      have hblend : r.blendPersonas req = some t := h
      unfold blendPersonas at hblend
      split at hblend
      · split at hblend
        · obtain ⟨profiles, -, hblend⟩ := Option.bind_eq_some_iff.mp hblend
          obtain ⟨blended, -, hblend⟩ := Option.bind_eq_some_iff.mp hblend
          exact ⟨.blend, by decide, .inl ⟨rfl, _, hblend⟩⟩
        · cases hblend
      · obtain ⟨id1, -, hblend⟩ := Option.bind_eq_some_iff.mp hblend
        obtain ⟨profile1, -, hblend⟩ := Option.bind_eq_some_iff.mp hblend
        obtain ⟨id2, -, hblend⟩ := Option.bind_eq_some_iff.mp hblend
        obtain ⟨profile2, -, hblend⟩ := Option.bind_eq_some_iff.mp hblend
        obtain ⟨blended, -, hblend⟩ := Option.bind_eq_some_iff.mp hblend
        exact ⟨.blend, by decide, .inl ⟨rfl, _, hblend⟩⟩

/-- **Every request that succeeds** creates or changes one persona and records it. -/
theorem edited_of_apply (h : edit.apply r = some t) : r.Edited t edit := by
  unfold Edited
  obtain ⟨source, -, ⟨htarget, profile, hcreate⟩ | ⟨id, data, htarget, hdata, hupdate⟩⟩ := writes_of_apply h
  · rw [htarget]
    exact createFrom_spec hcreate
  · rw [htarget]
    exact updateWith_spec hdata hupdate

/-- A change is stored if the row is there and the new one can be stored and validates. -/
theorem updateWith_isSome_iff {data : PersonaModel → PersonaModel} {source : PersonaVersionSource} :
    (r.updateWith id data source).isSome ↔
      ∃ persona, r.get id = some persona ∧ (data persona).Storable ∧ (data persona).toProfile.isSome := by
  show ((((r.get id).bind _).bind _).isSome ↔ _)
  cases r.get id with
  | none => simp
  | some persona =>
      by_cases hstorable : (data persona).Storable
      · show ((ite _ _ _ : Option (PersonaModel × Registry)).bind _).isSome ↔ _
        rw [if_pos hstorable]
        show ((data persona).toProfile.bind _).isSome ↔ _
        cases hprofile : (data persona).toProfile with
        | none => simp [hprofile]
        | some profile => exact iff_of_true rfl ⟨persona, rfl, hstorable, by rw [hprofile]; rfl⟩
      · show ((ite _ _ _ : Option (PersonaModel × Registry)).bind _).isSome ↔ _
        rw [if_neg hstorable]
        simp [hstorable]

/-- A request that is to change a persona is an update. -/
theorem apply_of_change {data : PersonaModel → PersonaModel} (h : edit.change = some (id, data)) :
    (∀ m, (data m).id = m.id) ∧ edit.target = some id ∧
      ∃ source, edit.apply r = r.updateWith id data source := by
  cases edit with
  | updatePersona id profile =>
      obtain ⟨rfl, rfl⟩ := Prod.mk.inj (Option.some.inj h)
      exact ⟨updates_id profile, rfl, .manual, rfl⟩
  | applyPreset id p =>
      obtain ⟨rfl, rfl⟩ := Prod.mk.inj (Option.some.inj h)
      exact ⟨presetUpdates_id p, rfl, .preset, rfl⟩
  | _ => cases h

/-- It succeeds if the row is there and the changed one can be stored and validates. -/
theorem apply_isSome_iff {data : PersonaModel → PersonaModel} (h : edit.change = some (id, data)) :
    (edit.apply r).isSome ↔
      ∃ persona, r.get id = some persona ∧ (data persona).Storable ∧ (data persona).toProfile.isSome := by
  obtain ⟨-, -, source, hupdate⟩ := apply_of_change (r := r) h
  rw [hupdate]
  exact updateWith_isSome_iff

theorem target_eq_none (h : edit.change = none) : edit.target = none := by
  cases edit with
  | updatePersona id profile => cases h
  | applyPreset id p => cases h
  | _ => rfl

/-! ## Rows under fresh ids -/

/-- Ids in use are not handed out again. -/
def Bounded (r : Registry) : Prop := ∀ p ∈ r.personas, p.id < r.fresh

theorem get_eq_none_of_bounded (h : r.Bounded) (hid : r.fresh ≤ id) : r.get id = none := by
  refine List.find?_eq_none.mpr fun p hp heq => ?_
  have hpid : p.id = id := of_decide_eq_true heq
  exact hid.not_gt (hpid ▸ h p hp)

theorem ne_fresh_of_isSome (h : r.Bounded) (hid : (r.get id).isSome) : id ≠ r.fresh := by
  rintro rfl
  rw [get_eq_none_of_bounded h le_rfl] at hid
  cases hid

theorem get_append (h : r.Bounded) (hid : persona.id = r.fresh) :
    (r.append persona).get id = if id = r.fresh then some persona else r.get id := by
  have hunfold : (r.append persona).get id =
      (r.get id).or ([persona].find? fun p => decide (p.id = id)) := List.find?_append
  rw [hunfold]
  by_cases heq : id = r.fresh
  · rw [if_pos heq, get_eq_none_of_bounded h heq.ge]
    simp [hid, heq]
  · rw [if_neg heq]
    have hne : ¬ r.fresh = id := fun h => heq h.symm
    simp [hid, hne]

theorem get_set {j : PersonaId} {f : PersonaModel → PersonaModel} (hf : ∀ m, (f m).id = m.id) :
    (r.set j f).get id = if id = j then (r.get id).map f else r.get id := by
  have hfind : (r.set j f).get id = (r.get id).map fun p => if id = j then f p else p :=
    Table.find?_modify hf
  rw [hfind]
  split
  · rfl
  · exact Option.map_id'

theorem get_delete {j : PersonaId} (h : r.delete j = some t) :
    t.get id = if id = j then none else r.get id := by
  obtain ⟨_, -, h⟩ := Option.bind_eq_some_iff.mp h
  obtain rfl := Option.some.inj h
  show (r.personas.filter _).find? _ = _
  rw [List.find?_filter]
  by_cases hid : id = j
  · rw [if_pos hid]
    refine List.find?_eq_none.mpr fun p _ => ?_
    simp [hid]
  · rw [if_neg hid]
    refine congrArg (r.personas.find? ·) (funext fun p => ?_)
    by_cases hp : p.id = id
    · simp [hp, hid]
    · simp [hp]

/-- `delete_persona` with its rollback. -/
theorem get_deleted (j : PersonaId) : ((r.delete j).getD r).get id = if id = j then none else r.get id := by
  cases hdelete : r.delete j with
  | some t => exact get_delete hdelete
  | none =>
      split
      · next hid =>
          rw [hid]
          cases hrow : r.get j with
          | none => exact hrow
          | some persona => simp [delete, hrow] at hdelete
      · rfl

theorem deleted_bounded (h : r.Bounded) (j : PersonaId) :
    ((r.delete j).getD r).Bounded ∧ ((r.delete j).getD r).fresh = r.fresh := by
  unfold delete
  cases r.get j with
  | none => exact ⟨h, rfl⟩
  | some persona => exact ⟨fun p hp => h p (List.mem_of_mem_filter hp), rfl⟩

theorem Records.bounded (h : r.Records t persona) (hr : r.Bounded) : t.Bounded := by
  obtain ⟨source, rfl⟩ := h
  exact hr

theorem append_bounded (h : r.Bounded) (hid : persona.id = r.fresh) : (r.append persona).Bounded := by
  intro p hp
  rcases List.mem_append.mp hp with hold | hnew
  · exact (h p hold).trans (Nat.lt_succ_self _)
  · rw [List.mem_singleton.mp hnew, hid]
    exact Nat.lt_succ_self _

theorem set_bounded {f : PersonaModel → PersonaModel} (h : r.Bounded) (hf : ∀ m, (f m).id = m.id) :
    (r.set id f).Bounded := by
  intro p hp
  obtain ⟨m, hm, rfl⟩ := List.mem_map.mp hp
  have hlt : m.id < r.fresh := h m hm
  split
  · rw [hf]
    exact hlt
  · exact hlt

/-- No request hands out an id in use. -/
theorem run_bounded (h : r.Bounded) (edit : Edit) : (edit.run r).Bounded := by
  unfold Edit.run
  cases happly : edit.apply r with
  | none => exact h
  | some t =>
      have hedited := edited_of_apply happly
      unfold Edited at hedited
      cases htarget : edit.target with
      | none =>
          rw [htarget] at hedited
          obtain ⟨persona, hid, hrecords⟩ := hedited
          exact hrecords.bounded (append_bounded h hid)
      | some id =>
          rw [htarget] at hedited
          obtain ⟨persona, data, -, hdata, -, hrecords⟩ := hedited
          exact hrecords.bounded (set_bounded h hdata)

theorem Records.get (h : r.Records t persona) : t.get id = r.get id := by
  obtain ⟨source, rfl⟩ := h
  rfl

/-- A request takes ids and gives none back. -/
theorem Edited.fresh_le (h : r.Edited t edit) : r.fresh ≤ t.fresh := by
  unfold Edited at h
  cases hedit : edit.target with
  | none =>
      rw [hedit] at h
      obtain ⟨persona, -, source, rfl⟩ := h
      exact Nat.le_succ _
  | some j =>
      rw [hedit] at h
      obtain ⟨persona, data, -, -, -, source, rfl⟩ := h
      exact le_rfl

theorem fresh_le_run (edit : Edit) : r.fresh ≤ (edit.run r).fresh := by
  unfold Edit.run
  cases happly : edit.apply r with
  | none => exact le_rfl
  | some t => exact (edited_of_apply happly).fresh_le

/-- A request leaves every persona alone but its target and the one it creates. -/
theorem get_of_edited (hr : r.Bounded) (h : r.Edited t edit) (hid : id ≠ r.fresh)
    (htarget : edit.target ≠ some id) : t.get id = r.get id := by
  unfold Edited at h
  cases hedit : edit.target with
  | none =>
      rw [hedit] at h
      obtain ⟨persona, hpersona, hrecords⟩ := h
      rw [hrecords.get, get_append hr hpersona, if_neg hid]
  | some j =>
      rw [hedit] at h htarget
      obtain ⟨persona, data, hget, hdata, -, hrecords⟩ := h
      rw [hrecords.get, get_set hdata, if_neg]
      rintro rfl
      exact htarget rfl

/-- No persona goes with a request. -/
theorem get_isSome_run (hr : r.Bounded) (edit : Edit) (h : (r.get id).isSome) :
    ((edit.run r).get id).isSome := by
  unfold Edit.run
  cases happly : edit.apply r with
  | none => exact h
  | some t =>
      have hedited := edited_of_apply happly
      by_cases hid : edit.target = some id
      · unfold Edited at hedited
        rw [hid] at hedited
        obtain ⟨persona, data, hget, hdata, -, hrecords⟩ := hedited
        show (t.get id).isSome
        rw [hrecords.get, get_set hdata, if_pos rfl, hget]
        rfl
      · show (t.get id).isSome
        rw [get_of_edited hr hedited (ne_fresh_of_isSome hr h) hid]
        exact h

/-- A request that creates a persona leaves alone who is there. -/
theorem get_of_created (hr : r.Bounded) (hchange : edit.change = none) (happly : edit.apply r = some t)
    (hid : (r.get id).isSome) : t.get id = r.get id := by
  have htarget : edit.target ≠ some id := by
    rw [target_eq_none hchange]
    exact (Option.some_ne_none id).symm
  exact get_of_edited hr (edited_of_apply happly) (ne_fresh_of_isSome hr hid) htarget

/-- What a change leaves in the table. -/
theorem get_of_change {data : PersonaModel → PersonaModel} {j : PersonaId} (hchange : edit.change = some (j, data))
    (h : edit.apply r = some t) : t.get id = if id = j then (r.get id).map data else r.get id := by
  obtain ⟨hdata, -, source, happly⟩ := apply_of_change (r := r) hchange
  obtain ⟨⟨updated, r'⟩, hupdate, hrecord⟩ := Option.bind_eq_some_iff.mp (happly.symm.trans h)
  obtain ⟨persona, -, hupdate⟩ := Option.bind_eq_some_iff.mp hupdate
  obtain ⟨-, hupdate⟩ := Option.ite_none_right_eq_some.mp hupdate
  obtain ⟨rfl, rfl⟩ := Prod.mk.inj (Option.some.inj hupdate)
  rw [(recordPersonaVersion_spec hrecord).get, get_set hdata]

end Registry

end Persola.Persona
