import Persola.Persona.Registry

/-!
# `Persona.Writes` — what is read back of a profile that was written

A profile gets into the table on several paths, and each copies it field by field: `from_profile` and
`apply_profile` for the profile-shaped calls, the dictionary of `update_persona` for the other. Read back with
`to_profile`, a row written by the former is the profile; one written by `update_persona` keeps the system
prompt it had.
-/

namespace Persola.Persona

/-! ## The copies of a profile -/

/-- `PersonaModel.apply_profile`. -/
def PersonaModel.applyProfile (profile : ProfileFields) (m : PersonaModel) : PersonaModel :=
  { m with
    knobs := profile.knobs
    name := profile.name
    description := some profile.description
    systemPrompt := some profile.systemPrompt
    model := profile.model
    temperature := profile.temperature
    maxTokens := profile.maxTokens }

section
variable {m stored : PersonaModel} {profile : PersonaProfile} {fields : ProfileFields}

/-- A row that was made from a profile is that profile applied to it. -/
theorem PersonaModel.applyProfile_fromProfile (id : PersonaId) (isPreset : Bool) :
    (fromProfile id fields isPreset).applyProfile fields = fromProfile id fields isPreset := rfl

/-- **What `apply_profile` sets is what `to_profile` reads.** -/
@[simp]
theorem PersonaModel.profileFields_applyProfile : (m.applyProfile fields).profileFields = fields := by
  unfold applyProfile profileFields
  simp only [Py.orElse_some_empty]

@[simp]
theorem PersonaModel.profileFields_fromProfile (id : PersonaId) (isPreset : Bool) :
    (fromProfile id fields isPreset).profileFields = fields := by
  rw [← applyProfile_fromProfile, profileFields_applyProfile]

/-- What `update_persona` sets is read back but for the system prompt. -/
theorem Registry.profileFields_updates : (updates profile m).profileFields =
    { profile.toProfileFields with systemPrompt := Py.orElse m.systemPrompt "" } := by
  unfold updates PersonaModel.profileFields
  simp only [Py.orElse_some_empty]

/-- The validation of a profile does not look at its system prompt. -/
theorem ProfileFields.Valid.systemPrompt (h : fields.Valid) (s : String) :
    ({ fields with systemPrompt := s } : ProfileFields).Valid :=
  ⟨h.name_length, h.description_length, h.knobs_range, h.temperature_range, h.maxTokens_range⟩

theorem ProfileFields.Valid.name {s : String} (h : fields.Valid) (hs : s.length ≤ 200) :
    ({ fields with name := s } : ProfileFields).Valid :=
  ⟨hs, h.description_length, h.knobs_range, h.temperature_range, h.maxTokens_range⟩

theorem PersonaModel.toProfile_of_fields (h : m.profileFields = fields) (hvalid : fields.Valid) :
    m.toProfile = some ⟨fields, hvalid⟩ := by
  subst h
  exact dif_pos hvalid

/-- What the columns ask of a valid profile is the length of the model's name. -/
theorem PersonaProfile.storable {fields : ProfileFields} (h : fields.Valid) (hmodel : fields.model.length ≤ 100)
    (hcopy : m.name = fields.name ∧ m.model = fields.model ∧ m.knobs = fields.knobs ∧
      m.temperature = fields.temperature ∧ m.maxTokens = fields.maxTokens) : m.Storable := by
  obtain ⟨hname, hm, hknobs, htemperature, hmax⟩ := hcopy
  refine ⟨?_, hm ▸ hmodel, hknobs ▸ h.knobs_range, htemperature ▸ h.temperature_range, hmax ▸ h.maxTokens_range⟩
  rw [hname]
  exact h.name_length.trans (by decide)

end

namespace Registry

variable {r t : Registry} {id : PersonaId} {stored : PersonaModel} {fields : ProfileFields}

/-- The fields of a persona, as `to_profile` reads them. -/
def fieldsOf (r : Registry) (id : PersonaId) : Option ProfileFields :=
  (r.profileOf id).map (·.toProfileFields)

/-- `PersonaRepo.update`. -/
def repoUpdate (r : Registry) (id : PersonaId) (profile : PersonaProfile) : Option Registry := do
  let (row, r) ← r.update id (PersonaModel.applyProfile profile.toProfileFields)
  let _ ← row.toProfile
  return r

end Registry

/-- The ways to write a profile. -/
inductive WritePath
  | createPersona | importPersona | repoUpdate | updatePersona
deriving DecidableEq

/-- Write a profile; `id` is the persona the updates are about. The answer names the persona written. -/
def WritePath.write (path : WritePath) (r : Registry) (id : PersonaId) (profile : PersonaProfile) :
    Option (PersonaId × Registry) :=
  match path with
  | createPersona => (r.createPersona profile).map fun t => (r.fresh, t)
  | importPersona => (r.importPersona profile).map fun t => (r.fresh, t)
  | repoUpdate => (r.repoUpdate id profile).map fun t => (id, t)
  | updatePersona => (r.updatePersona id profile).map fun t => (id, t)

/-! ## Reading back -/

namespace Registry

variable {r t : Registry} {id : PersonaId} {stored : PersonaModel} {fields : ProfileFields}
  {profile : PersonaProfile} {source : PersonaVersionSource}

theorem fieldsOf_eq_some {row : PersonaModel} (hget : r.get id = some row) (hrow : row.profileFields = fields)
    (hvalid : fields.Valid) : r.fieldsOf id = some fields := by
  unfold fieldsOf profileOf
  rw [hget]
  show row.toProfile.map _ = _
  rw [PersonaModel.toProfile_of_fields hrow hvalid]
  rfl

/-- A row that is read as a valid profile can be recorded. -/
theorem recordPersonaVersion_isSome (r : Registry) (source : PersonaVersionSource) {row : PersonaModel}
    (hrow : row.profileFields = fields) (hvalid : fields.Valid) :
    ∃ t, r.recordPersonaVersion row source = some t ∧ r.Records t row := by
  have hprofile := PersonaModel.toProfile_of_fields hrow hvalid
  have hsome : (r.recordPersonaVersion row source).isSome := by
    unfold recordPersonaVersion
    rw [hprofile]
    rfl
  obtain ⟨t, ht⟩ := Option.isSome_iff_exists.mp hsome
  exact ⟨t, ht, recordPersonaVersion_spec ht⟩

/-- **A persona that is created reads as its profile.** -/
theorem createFrom_reads (source : PersonaVersionSource) (hr : r.Bounded) (hvalid : fields.Valid)
    (hmodel : fields.model.length ≤ 100) :
    ∃ t, r.createFrom fields source = some t ∧ t.Bounded ∧ t.fieldsOf r.fresh = some fields := by
  let row := PersonaModel.fromProfile r.fresh fields false
  have hfields : row.profileFields = fields := PersonaModel.profileFields_fromProfile r.fresh false
  have hstorable : row.Storable := PersonaProfile.storable hvalid hmodel ⟨rfl, rfl, rfl, rfl, rfl⟩
  obtain ⟨t, hrecord, hrecords⟩ :=
    recordPersonaVersion_isSome (r.append row) source hfields hvalid
  have hcreate : r.create fields false = some (row, r.append row) := if_pos hstorable
  refine ⟨t, ?_, hrecords.bounded (append_bounded hr rfl), ?_⟩
  · unfold createFrom
    rw [hcreate]
    exact hrecord
  · have hget : t.get r.fresh = some row := by
      rw [hrecords.get, get_append hr rfl, if_pos rfl]
    exact fieldsOf_eq_some hget hfields hvalid

/-- What an update makes of a stored row. -/
theorem update_reads (data : PersonaModel → PersonaModel) (hr : r.Bounded) (hget : r.get id = some stored)
    (hdata : ∀ m, (data m).id = m.id) (hstorable : (data stored).Storable) :
    r.update id data = some (data stored, r.set id data) ∧ (r.set id data).Bounded ∧
      (r.set id data).get id = some (data stored) := by
  refine ⟨?_, set_bounded hr hdata, ?_⟩
  · unfold update
    rw [hget]
    exact if_pos hstorable
  · rw [get_set hdata, if_pos rfl, hget]
    rfl

/-- What `update_persona` reads back as. -/
def updatedFields (stored : PersonaModel) (profile : PersonaProfile) : ProfileFields :=
  { profile.toProfileFields with systemPrompt := Py.orElse stored.systemPrompt "" }

/-- **`update_persona` keeps the system prompt of the stored row**, and writes the rest. -/
theorem updatePersona_reads (profile : PersonaProfile) (hr : r.Bounded) (hget : r.get id = some stored)
    (hmodel : profile.model.length ≤ 100) :
    ∃ t, r.updatePersona id profile = some t ∧ t.Bounded ∧ t.fieldsOf id = some (updatedFields stored profile) := by
  have hfields : (updates profile stored).profileFields = updatedFields stored profile := profileFields_updates
  have hvalid : (updatedFields stored profile).Valid := profile.valid.systemPrompt _
  have hstorable : (updates profile stored).Storable :=
    PersonaProfile.storable profile.valid hmodel ⟨rfl, rfl, rfl, rfl, rfl⟩
  obtain ⟨hupdate, hbounded, hrow⟩ := update_reads (updates profile) hr hget (updates_id profile) hstorable
  obtain ⟨t, hrecord, hrecords⟩ :=
    recordPersonaVersion_isSome (r.set id (updates profile)) .manual hfields hvalid
  refine ⟨t, ?_, hrecords.bounded hbounded, ?_⟩
  · unfold updatePersona updateWith
    rw [hupdate]
    exact hrecord
  · exact fieldsOf_eq_some (by rw [hrecords.get, hrow]) hfields hvalid

/-- `PersonaRepo.update` writes the whole profile. -/
theorem repoUpdate_reads (profile : PersonaProfile) (hr : r.Bounded) (hget : r.get id = some stored)
    (hmodel : profile.model.length ≤ 100) :
    ∃ t, r.repoUpdate id profile = some t ∧ t.Bounded ∧ t.fieldsOf id = some profile.toProfileFields := by
  have hfields : (stored.applyProfile profile.toProfileFields).profileFields = profile.toProfileFields :=
    PersonaModel.profileFields_applyProfile
  have hstorable : (stored.applyProfile profile.toProfileFields).Storable :=
    PersonaProfile.storable profile.valid hmodel ⟨rfl, rfl, rfl, rfl, rfl⟩
  obtain ⟨hupdate, hbounded, hrow⟩ :=
    update_reads (PersonaModel.applyProfile profile.toProfileFields) hr hget (fun _ => rfl) hstorable
  refine ⟨_, ?_, hbounded, fieldsOf_eq_some hrow hfields profile.valid⟩
  unfold repoUpdate
  rw [hupdate]
  show (stored.applyProfile profile.toProfileFields).toProfile.bind _ = _
  rw [PersonaModel.toProfile_of_fields hfields profile.valid]
  rfl

/-- **A clone reads as the original under its new name.** -/
theorem clonePersona_reads (hr : r.Bounded) (h : r.fieldsOf id = some fields) (hmodel : fields.model.length ≤ 100)
    {name : String} (hname : 1 ≤ name.length ∧ name.length ≤ 200) :
    ∃ t, r.clonePersona id name = some t ∧ t.fieldsOf r.fresh = some { fields with name } := by
  obtain ⟨original, horiginal, rfl⟩ := Option.map_eq_some_iff.mp h
  obtain ⟨row, hget, hprofile⟩ := Option.bind_eq_some_iff.mp horiginal
  obtain ⟨t, ht, -, hread⟩ :=
    createFrom_reads .manual hr (original.valid.name hname.2) hmodel
  refine ⟨t, ?_, hread⟩
  unfold clonePersona
  rw [if_pos hname, hget]
  show row.toProfile.bind _ = _
  rw [hprofile]
  exact ht

/-- The path stores the whole profile, and a clone of what it stored differs in the name only. -/
def Keeps (r : Registry) (path : WritePath) (id : PersonaId) (profile : PersonaProfile) : Prop :=
  ∃ j t, path.write r id profile = some (j, t) ∧ t.fieldsOf j = some profile.toProfileFields ∧
    ∀ name : String, 1 ≤ name.length ∧ name.length ≤ 200 →
      ∃ u, t.clonePersona j name = some u ∧ u.fieldsOf t.fresh = some { profile.toProfileFields with name }

theorem keeps_of_reads {path : WritePath} {j : PersonaId} (hwrite : path.write r id profile = some (j, t))
    (ht : t.Bounded) (hread : t.fieldsOf j = some profile.toProfileFields) (hmodel : profile.model.length ≤ 100) :
    r.Keeps path id profile :=
  ⟨j, t, hwrite, hread, fun _ hname => clonePersona_reads ht hread hmodel hname⟩

/-- `update_persona` stores the whole profile only if the system prompt is the stored one. -/
theorem systemPrompt_of_keeps (hr : r.Bounded) (hget : r.get id = some stored)
    (hmodel : profile.model.length ≤ 100) (h : r.Keeps .updatePersona id profile) :
    Py.orElse stored.systemPrompt "" = profile.systemPrompt := by
  obtain ⟨t, hupdate, -, hread⟩ := updatePersona_reads profile hr hget hmodel
  obtain ⟨j, t', hwrite, hread', -⟩ := h
  obtain ⟨t'', hupdate', heq⟩ := Option.map_eq_some_iff.mp hwrite
  obtain ⟨rfl, rfl⟩ := Prod.mk.inj heq
  obtain rfl := Option.some.inj (hupdate.symm.trans hupdate')
  exact congrArg ProfileFields.systemPrompt (Option.some.inj (hread.symm.trans hread'))

/-- **All paths store the same profile exactly if it has the system prompt that is stored already**: three of
them always do, and `update_persona` leaves the system prompt as it is. -/
theorem keepsProfile_iff (hr : r.Bounded) (hget : r.get id = some stored)
    (hfits : (stored.applyProfile profile.toProfileFields).Storable) :
    (∀ path, r.Keeps path id profile) ↔ Py.orElse stored.systemPrompt "" = profile.systemPrompt := by
  have hmodel : profile.model.length ≤ 100 := hfits.model_length
  constructor
  · intro h
    exact systemPrompt_of_keeps hr hget hmodel (h .updatePersona)
  · intro h path
    cases path with
    | createPersona =>
        obtain ⟨t, hwrite, ht, hread⟩ := createFrom_reads .manual hr profile.valid hmodel
        exact keeps_of_reads (Option.map_eq_some_iff.mpr ⟨t, hwrite, rfl⟩) ht hread hmodel
    | importPersona =>
        obtain ⟨t, hwrite, ht, hread⟩ := createFrom_reads .imported hr profile.valid hmodel
        exact keeps_of_reads (Option.map_eq_some_iff.mpr ⟨t, hwrite, rfl⟩) ht hread hmodel
    | repoUpdate =>
        obtain ⟨t, hwrite, ht, hread⟩ := repoUpdate_reads profile hr hget hmodel
        exact keeps_of_reads (Option.map_eq_some_iff.mpr ⟨t, hwrite, rfl⟩) ht hread hmodel
    | updatePersona =>
        obtain ⟨t, hwrite, ht, hread⟩ := updatePersona_reads profile hr hget hmodel
        refine keeps_of_reads (Option.map_eq_some_iff.mpr ⟨t, hwrite, rfl⟩) ht ?_ hmodel
        rw [hread, updatedFields, h]

/-- A table with one persona, and the preset without a system prompt in it. -/
def onePersona : Registry := ⟨[PersonaModel.fromProfile 0 (presetFields .creative) false], [], 1⟩

theorem onePersona_bounded : onePersona.Bounded := by
  intro p hp
  rw [List.mem_singleton.mp hp]
  exact Nat.zero_lt_one

/-- Another preset without a system prompt is stored in full. -/
theorem keeps_technical : onePersona.Keeps .updatePersona 0 (defaultPresets .technical) :=
  have hget : onePersona.get 0 = some (PersonaModel.fromProfile 0 (presetFields .creative) false) := rfl
  (keepsProfile_iff onePersona_bounded hget (by decide +kernel)).mpr (by decide +kernel) .updatePersona

/-- The preset with a system prompt. -/
def prompted : PersonaProfile :=
  ⟨{ presetFields .creative with systemPrompt := "Answer in verse." }, by decide +kernel⟩

/-- **A PUT that gives the persona a system prompt**: it is not stored. -/
theorem updatePersona_drops_prompt : ¬ ∀ (r : Registry) id stored (profile : PersonaProfile), r.Bounded →
    r.get id = some stored → (stored.applyProfile profile.toProfileFields).Storable →
      ∀ path, r.Keeps path id profile := by
  intro hall
  let stored := PersonaModel.fromProfile 0 (presetFields .creative) false
  have hkeeps := hall onePersona 0 stored prompted onePersona_bounded rfl (by decide +kernel) .updatePersona
  have hprompt : Py.orElse stored.systemPrompt "" = prompted.systemPrompt :=
    systemPrompt_of_keeps onePersona_bounded rfl (by decide) hkeeps
  revert hprompt
  decide

end Registry

end Persola.Persona
