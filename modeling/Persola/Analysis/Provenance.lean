import Persola.Analysis.Extraction
import Persola.Persona.History
import Persola.Persona.Seeding
import Persola.Persona.Writes

/-!
# `Analysis.Provenance` — the personas that were made of texts

The knobs that are found in a text are recorded as an analysis run, and a persona may be made of them: its row, its
first version and the run go into one transaction. Later the persona is written, versioned and deleted like any other,
by requests that know nothing of analyses. Still every run that names a persona names one whose first version is what
the run found, no other run names it, and whatever has a version out of an analysis is named by its run (`provenance`).
-/

namespace Persola.Analysis

open Persona Runs

/-! ## What is found in a text -/

/-- `StyleToKnobMapper.map`. -/
def styleMap (analysis : StyleAnalysis) : List (String × ℚ) := Knob.fields.map fun k => (k.key, analysis.knobs k)

/-- The errors of `validate_knobs`; the knobs are valid if there is none. -/
def validateKnobs (knobs : List (String × ℚ)) : List String :=
  Knob.fields.filterMap fun k =>
    (knobs.lookup k.key).bind fun value =>
      if 0 ≤ value ∧ value ≤ 1 then none else some (k.key ++ " must be between 0.0 and 1.0")

/-- `style_extractor`, and what Python knows of characters and numbers. -/
structure StyleExtractor where
  py : Conversions
  chars : Characters
  provider : String
  model : String

/-- What `_run_style_analysis` returns. -/
structure Findings where
  knobs : List (String × ℚ)
  confidence : ℚ
  notes : String

/-- Why it does not return: an exception, or the status of an `HTTPException`. -/
inductive Refusal
  | raised (e : PyError)
  | status (code : ℕ)

/-- `_run_style_analysis`. -/
def runStyleAnalysis (ext : StyleExtractor) (llm : PersolaLLM) (text : String) : Except Refusal Findings :=
  match extract ext.py ext.chars llm text with
  | .error e => .error (.raised e)
  | .ok analysis =>
      let knobs := styleMap analysis
      if validateKnobs knobs = [] then .ok ⟨knobs, analysis.confidenceScore, analysis.notes⟩ else .error (.status 502)

/-- `PersonaProfile(name=name, description=notes, **knobs)`, before its validation. -/
def Findings.fields (found : Findings) (name : String) : ProfileFields :=
  { defaultFields name with
    description := found.notes
    knobs := fun k => (found.knobs.lookup k.key).getD k.default }

/-- `_build_persona_from_knobs`; `none` is the `ValidationError` of the constructor. -/
def buildPersonaFromKnobs (name : String) (found : Findings) : Option PersonaProfile :=
  PersonaProfile.ofFields? (found.fields name)

/-! ## The tables -/

/-- A row of `analysis_runs`. -/
structure AnalysisRunModel where
  personaId : Option PersonaId
  sourceText : String
  knobs : List (String × ℚ)
  confidenceScore : ℚ
  notes : String
  provider : String
  model : String

/-- The row of an analysis. -/
def StyleExtractor.analysisRun (ext : StyleExtractor) (text : String) (found : Findings)
    (personaId : Option PersonaId) : AnalysisRunModel where
  personaId := personaId
  sourceText := text
  knobs := found.knobs
  confidenceScore := found.confidence
  notes := found.notes
  provider := ext.provider
  model := ext.model

/-- What its columns admit. -/
def AnalysisRunModel.Storable (run : AnalysisRunModel) : Prop :=
  (0 ≤ run.confidenceScore ∧ run.confidenceScore ≤ 1) ∧ run.provider.length ≤ 50 ∧ run.model.length ≤ 100

instance (run : AnalysisRunModel) : Decidable run.Storable := inferInstanceAs (Decidable (_ ∧ _ ∧ _))

/-- The run without its persona: the foreign key is `ON DELETE SET NULL`. -/
def AnalysisRunModel.unlinked (run : AnalysisRunModel) : AnalysisRunModel := { run with personaId := none }

/-- Personas, their versions and the analysis runs. -/
structure Studio where
  registry : Registry
  runs : List AnalysisRunModel

namespace Studio

/-- `_record_analysis_run`. -/
def recordAnalysisRun (ext : StyleExtractor) (s : Studio) (text : String) (found : Findings)
    (personaId : Option PersonaId) : Option Studio :=
  let run := ext.analysisRun text found personaId
  if run.Storable then some { s with runs := s.runs ++ [run] } else none

/-- A persona is created of what was found, and its first version. -/
def createAnalysed (s : Studio) (name : String) (found : Findings) : Option (PersonaId × Studio) := do
  let persona ← buildPersonaFromKnobs name found
  let registry ← s.registry.createFrom persona.toProfileFields .analysis
  return (s.registry.fresh, { s with registry })

/-- What both endpoints do: a persona is created if there is a name for it. -/
def analyse (ext : StyleExtractor) (llm : PersolaLLM) (s : Studio) (text : String) (name : Option String) :
    Option (Findings × Option PersonaId × Studio) :=
  match runStyleAnalysis ext llm text, name with
  | .error _, _ => none
  | .ok found, none => (s.recordAnalysisRun ext text found none).map fun t => (found, none, t)
  | .ok found, some name => do
      let (id, s) ← s.createAnalysed name found
      let t ← s.recordAnalysisRun ext text found (some id)
      return (found, some id, t)

/-- `delete_persona`. -/
def deletePersona (s : Studio) (id : PersonaId) : Option Studio := do
  let registry ← s.registry.delete id
  return ⟨registry, s.runs.map fun run => if run.personaId = some id then run.unlinked else run⟩

end Studio

/-! ## Endpoints -/

/-- `AnalysisExtractRequest`. -/
structure AnalysisExtractRequest where
  text : String
  createPersona : Bool := false
  personaName : Option String := none

def AnalysisExtractRequest.Valid (body : AnalysisExtractRequest) : Prop :=
  (1 ≤ body.text.length ∧ body.text.length ≤ 50000) ∧ ∀ name ∈ body.personaName, name.length ≤ 200

instance (body : AnalysisExtractRequest) : Decidable body.Valid := inferInstanceAs (Decidable (_ ∧ _))

/-- The name of the persona that is wanted, if one is. -/
def AnalysisExtractRequest.wanted (body : AnalysisExtractRequest) : Option String :=
  if body.createPersona then some (Py.orElse body.personaName "Writing Style Persona") else none

/-- `AnalysisExtractResponse`. -/
structure AnalysisExtractResponse where
  knobs : List (String × ℚ)
  confidence : ℚ
  notes : String
  personaId : Option PersonaId

/-- `extract_analysis`. -/
def extractAnalysis (ext : StyleExtractor) (llm : PersolaLLM) (s : Studio) (body : AnalysisExtractRequest) :
    Option (AnalysisExtractResponse × Studio) :=
  if body.Valid then
    (s.analyse ext llm body.text body.wanted).map fun (found, personaId, t) =>
      (⟨found.knobs, found.confidence, found.notes, personaId⟩, t)
  else none

/-- `AnalysisCreateRequest`. -/
structure AnalysisCreateRequest where
  text : String
  name : String

def AnalysisCreateRequest.Valid (request : AnalysisCreateRequest) : Prop :=
  (1 ≤ request.text.length ∧ request.text.length ≤ 50000) ∧ 1 ≤ request.name.length ∧ request.name.length ≤ 200

instance (request : AnalysisCreateRequest) : Decidable request.Valid := inferInstanceAs (Decidable (_ ∧ _))

/-- `extract_and_create_persona`; what it answers is read back from the row. -/
def extractAndCreatePersona (ext : StyleExtractor) (llm : PersolaLLM) (s : Studio) (request : AnalysisCreateRequest) :
    Option (Option PersonaProfile × Studio) :=
  if request.Valid then
    (s.analyse ext llm request.text (some request.name)).map fun (_, personaId, t) =>
      (personaId.bind t.registry.profileOf, t)
  else none

/-- The requests on personas; the last two stand for what the city does with them, without a version. -/
inductive StudioCall
  | extractAnalysis (llm : PersolaLLM) (body : AnalysisExtractRequest)
  | extractAndCreatePersona (llm : PersolaLLM) (request : AnalysisCreateRequest)
  | edit (e : Edit)
  | importPersonaFromCyrex (profile : PersonaProfile)
  | deletePersona (id : PersonaId)
  | startup
  | rewrite (id : PersonaId) (data : PersonaModel → PersonaModel)
  | insert (persona : PersonaModel)

/-- What a request makes of the tables; `none` is an error response. -/
def StudioCall.apply (ext : StyleExtractor) (s : Studio) : StudioCall → Option Studio
  | .extractAnalysis llm body => (Analysis.extractAnalysis ext llm s body).map Prod.snd
  | .extractAndCreatePersona llm request => (Analysis.extractAndCreatePersona ext llm s request).map Prod.snd
  | .edit e => (e.apply s.registry).map fun registry => { s with registry }
  | .importPersonaFromCyrex profile =>
      (s.registry.createFrom profile.toProfileFields .cyrex).map fun registry => { s with registry }
  | .deletePersona id => s.deletePersona id
  | .startup => s.registry.seedPresets.map fun registry => { s with registry }
  | .rewrite id data => some { s with registry := s.registry.set id fun m => { data m with id := m.id } }
  | .insert persona => some { s with registry := s.registry.append { persona with id := s.registry.fresh } }

/-- **The service**, from empty tables; a request that fails leaves them alone. -/
def studio (ext : StyleExtractor) : System Studio StudioCall where
  init s := s.registry.personas = [] ∧ s.registry.versions = [] ∧ s.runs = []
  step s call := some ((call.apply ext s).getD s)

/-! ## What the findings are -/

variable {ext : StyleExtractor} {llm : PersolaLLM} {text : String} {found : Findings} {analysis : StyleAnalysis}

/-- An extraction that returns is in range, whatever the model says. -/
theorem extract_inRange {py : Conversions} {chars : Characters} (h : extract py chars llm text = .ok analysis) :
    analysis.InRange := by
  by_cases htext : Py.strip text = ""
  · unfold extract at h
    simp only [if_pos htext] at h
    cases h
  · cases havailable : llm.isAvailable with
    | false =>
        unfold extract at h
        simp only [if_neg htext, havailable] at h
        obtain rfl := Except.ok.inj h
        exact heuristicAnalysis_inRange _ _ _
    | true =>
        rw [extract_eq htext havailable] at h
        generalize candidates (llm.generate (.analysis (Py.strip text))) = first at h
        rcases parseCandidates_spec py first with ⟨hnone, -⟩ | ⟨⟨e, herror⟩, -⟩ | ⟨a, ha, hrange, -⟩
        · rw [hnone] at h
          generalize candidates (llm.generate (.retry _ _)) = second at h
          rcases parseCandidates_spec py second with ⟨hnone, -⟩ | ⟨⟨e, herror⟩, -⟩ | ⟨a, ha, hrange, -⟩
          · rw [hnone] at h
            obtain rfl := Except.ok.inj h
            exact heuristicAnalysis_inRange _ _ _
          · rw [herror] at h
            cases h
          · rw [ha] at h
            obtain rfl := Except.ok.inj h
            exact ⟨hrange.knobs, hrange.confidenceScore⟩
        · rw [herror] at h
          cases h
        · rw [ha] at h
          obtain rfl := Except.ok.inj h
          exact hrange

/-- Every knob is under its own name. -/
theorem lookup_styleMap (analysis : StyleAnalysis) (k : Knob) :
    (styleMap analysis).lookup k.key = some (analysis.knobs k) := by
  cases k <;> rfl

theorem validateKnobs_styleMap (h : analysis.InRange) : validateKnobs (styleMap analysis) = [] := by
  refine List.filterMap_eq_nil_iff.mpr fun k _ => ?_
  rw [lookup_styleMap, Option.bind_some, if_pos (h.knobs k)]

/-- What is found is an analysis in range. -/
def Findings.Of (found : Findings) (analysis : StyleAnalysis) : Prop :=
  analysis.InRange ∧ found = ⟨styleMap analysis, analysis.confidenceScore, analysis.notes⟩

/-- **No analysis is refused for its knobs**: the endpoints never answer 502. -/
theorem runStyleAnalysis_spec (ext : StyleExtractor) (llm : PersolaLLM) (text : String) :
    (∃ found analysis, runStyleAnalysis ext llm text = .ok found ∧ found.Of analysis) ∨
      ∃ e, runStyleAnalysis ext llm text = .error (.raised e) := by
  unfold runStyleAnalysis
  cases hextract : extract ext.py ext.chars llm text with
  | error e => exact .inr ⟨e, rfl⟩
  | ok analysis =>
      have hrange := extract_inRange hextract
      refine .inl ⟨_, analysis, if_pos (validateKnobs_styleMap hrange), hrange, rfl⟩

theorem Findings.Of.fields_knobs (h : found.Of analysis) (name : String) :
    (found.fields name).knobs = analysis.knobs := by
  obtain ⟨-, rfl⟩ := h
  funext k
  show ((styleMap analysis).lookup k.key).getD k.default = _
  rw [lookup_styleMap, Option.getD_some]

/-! ## What requests leave of the versions -/

section
variable {r t : Registry} {id : PersonaId} {profile : ProfileFields} {source : PersonaVersionSource}
  {persona : PersonaModel} {data : PersonaModel → PersonaModel}

/-- A persona that is created gets a row and its first version. -/
theorem createFrom_records (hr : r.Filed) (h : r.createFrom profile source = some t) :
    let row := PersonaModel.fromProfile r.fresh profile false
    ∃ v : PersonaVersionModel, v.personaId = r.fresh ∧ v.versionNumber = 1 ∧ v.source = source ∧
      v.knobSnapshot = profile.knobs ∧ v.settingsSnapshot = row.settingsValues ∧
      t = { r.append row with versions := r.versions ++ [v] } := by
  obtain ⟨⟨created, r'⟩, hcreate, h⟩ := Option.bind_eq_some_iff.mp h
  obtain ⟨-, hcreate⟩ := Option.ite_none_right_eq_some.mp hcreate
  obtain ⟨rfl, rfl⟩ := Prod.mk.inj (Option.some.inj hcreate)
  refine ⟨_, rfl, ?_, rfl, rfl, rfl, Registry.recordPersonaVersion_eq h⟩
  show r.getLatestVersionNumber r.fresh + 1 = 1
  rw [Registry.getLatestVersionNumber_eq hr, Registry.versionsOf_eq_nil hr le_rfl]
  rfl

theorem updateWith_versions (h : r.updateWith id data source = some t) :
    ∃ v : PersonaVersionModel, v.source = source ∧ t.versions = r.versions ++ [v] := by
  obtain ⟨⟨updated, r'⟩, hupdate, h⟩ := Option.bind_eq_some_iff.mp h
  obtain ⟨row, -, hupdate⟩ := Option.bind_eq_some_iff.mp hupdate
  obtain ⟨-, hupdate⟩ := Option.ite_none_right_eq_some.mp hupdate
  obtain ⟨rfl, rfl⟩ := Prod.mk.inj (Option.some.inj hupdate)
  obtain rfl := Registry.recordPersonaVersion_eq h
  exact ⟨_, rfl, rfl⟩

theorem versionsOf_append {versions : List PersonaVersionModel} (h : t.versions = r.versions ++ versions) :
    t.versionsOf id = r.versionsOf id ++ versions.filter (·.personaId = id) := by
  unfold Registry.versionsOf
  rw [h, List.filter_append]

theorem head?_versionsOf {versions : List PersonaVersionModel} (h : t.versions = r.versions ++ versions)
    {v : PersonaVersionModel} (hv : (r.versionsOf id).head? = some v) : (t.versionsOf id).head? = some v := by
  rw [versionsOf_append h, List.head?_append, hv, Option.some_or]

/-- A persona that is created is there, with its first version, and nobody else goes. -/
theorem createFrom_first (hr : r.Filed) (h : r.createFrom profile source = some t) : t.Filed ∧
    (t.get r.fresh).isSome ∧ (∀ id, (r.get id).isSome → (t.get id).isSome) ∧
      ∃ v : PersonaVersionModel, t.versions = r.versions ++ [v] ∧ (t.versionsOf r.fresh).head? = some v ∧
        v.personaId = r.fresh ∧ v.versionNumber = 1 ∧ v.source = source ∧ v.knobSnapshot = profile.knobs ∧
          v.settingsSnapshot = (PersonaModel.fromProfile r.fresh profile false).settingsValues := by
  have hfiled : t.Filed := by
    obtain ⟨persona, hid, hrecords⟩ := Registry.createFrom_spec h
    refine hrecords.filed (hr.append hid) ?_
    rw [Registry.get_append hr.bounded hid, if_pos hid]
  obtain ⟨v, hid, hnumber, hsource, hknobs, hsettings, rfl⟩ := createFrom_records hr h
  have hget (id : PersonaId) : (r.append (.fromProfile r.fresh profile false)).get id =
      if id = r.fresh then some (.fromProfile r.fresh profile false) else r.get id :=
    Registry.get_append hr.bounded rfl
  refine ⟨hfiled, ?_, fun id hsome => ?_, v, rfl, ?_, hid, hnumber, hsource, hknobs, hsettings⟩
  · show ((r.append _).get _).isSome
    rw [hget, if_pos rfl]
    rfl
  · show ((r.append _).get _).isSome
    rw [hget, if_neg (Registry.ne_fresh_of_isSome hr.bounded hsome)]
    exact hsome
  · rw [versionsOf_append (r := r) rfl, Registry.versionsOf_eq_nil hr le_rfl, List.nil_append, List.filter_singleton,
      hid]
    simp

end

/-! ## Who is gone -/

section
variable {r t u : Registry} {id : PersonaId} {persona : PersonaModel}

/-- The persona `id` was there, and it was deleted. -/
def Gone (r : Registry) (id : PersonaId) : Prop := id < r.fresh ∧ r.get id = none

theorem lt_fresh_of_isSome (hr : r.Bounded) (hid : (r.get id).isSome) : id < r.fresh := by
  by_contra hle
  rw [Registry.get_eq_none_of_bounded hr (not_lt.mp hle)] at hid
  cases hid

theorem fresh_delete (h : r.delete id = some t) : t.fresh = r.fresh := by
  obtain ⟨_, -, h⟩ := Option.bind_eq_some_iff.mp h
  obtain rfl := Option.some.inj h
  rfl

/-- Who is gone in `r` is gone in `t`: no id is given to another persona later. -/
def NoneBack (r t : Registry) : Prop := ∀ id, Gone r id → Gone t id

namespace NoneBack

theorem refl (r : Registry) : NoneBack r r := fun _ h => h

theorem trans (h : NoneBack r t) (h' : NoneBack t u) : NoneBack r u := fun id hid => h' id (h id hid)

theorem append (hr : r.Bounded) (hid : persona.id = r.fresh) : NoneBack r (r.append persona) := by
  rintro id ⟨hlt, hget⟩
  refine ⟨Nat.lt_succ_of_lt hlt, ?_⟩
  rw [Registry.get_append hr hid, if_neg hlt.ne]
  exact hget

theorem set {data : PersonaModel → PersonaModel} (hdata : ∀ m, (data m).id = m.id) : NoneBack r (r.set id data) := by
  rintro j ⟨hlt, hget⟩
  refine ⟨hlt, ?_⟩
  rw [Registry.get_set hdata, hget, Option.map_none, ite_self]

theorem delete (h : r.delete id = some t) : NoneBack r t := by
  rintro j ⟨hlt, hget⟩
  refine ⟨hlt.trans_eq (fresh_delete h).symm, ?_⟩
  rw [Registry.get_delete h, hget, ite_self]

theorem records (h : r.Records t persona) : NoneBack r t := by
  obtain ⟨source, rfl⟩ := h
  exact fun _ hid => hid

theorem createFrom {profile : ProfileFields} {source : PersonaVersionSource} (hr : r.Bounded)
    (h : r.createFrom profile source = some t) : NoneBack r t := by
  obtain ⟨persona, hid, hrecords⟩ := Registry.createFrom_spec h
  exact (append hr hid).trans (records hrecords)

theorem updateWith {source : PersonaVersionSource} {data : PersonaModel → PersonaModel}
    (hdata : ∀ m, (data m).id = m.id) (h : r.updateWith id data source = some t) : NoneBack r t := by
  obtain ⟨persona, data, -, hdata, -, hrecords⟩ := Registry.updateWith_spec hdata h
  exact (set hdata).trans (records hrecords)

end NoneBack

end

/-- `t` is `r` after a request that has no analysis. -/
structure Unanalysed (r t : Registry) : Prop where
  filed : t.Filed
  noneBack : NoneBack r t
  kept : ∀ id, (r.get id).isSome → (t.get id).isSome
  versions : ∃ added : List PersonaVersionModel, t.versions = r.versions ++ added ∧ ∀ v ∈ added, v.source ≠ .analysis

namespace Unanalysed

variable {r t u : Registry} {id : PersonaId} {persona : PersonaModel}

theorem refl (hr : r.Filed) : Unanalysed r r :=
  ⟨hr, .refl r, fun _ h => h, [], (List.append_nil _).symm, fun _ h => absurd h List.not_mem_nil⟩

theorem trans (h : Unanalysed r t) (h' : Unanalysed t u) : Unanalysed r u := by
  obtain ⟨added, hadded, hsource⟩ := h.versions
  obtain ⟨added', hadded', hsource'⟩ := h'.versions
  refine ⟨h'.filed, h.noneBack.trans h'.noneBack, fun id hid => h'.kept id (h.kept id hid), added ++ added', ?_, ?_⟩
  · rw [hadded', hadded, List.append_assoc]
  · exact fun v hv => (List.mem_append.mp hv).elim (hsource v) (hsource' v)

theorem append (hr : r.Filed) (hid : persona.id = r.fresh) : Unanalysed r (r.append persona) where
  filed := hr.append hid
  noneBack := .append hr.bounded hid
  kept id h := by
    rw [Registry.get_append hr.bounded hid, if_neg (Registry.ne_fresh_of_isSome hr.bounded h)]
    exact h
  versions := (refl hr).versions

theorem set (hr : r.Filed) {data : PersonaModel → PersonaModel} (hdata : ∀ m, (data m).id = m.id) :
    Unanalysed r (r.set id data) where
  filed := hr.set hdata
  noneBack := .set hdata
  kept j h := by
    rw [Registry.get_set hdata]
    split
    · rw [Option.isSome_map]
      exact h
    · exact h
  versions := (refl hr).versions

theorem createFrom (hr : r.Filed) {profile : ProfileFields} {source : PersonaVersionSource}
    (hsource : source ≠ .analysis) (h : r.createFrom profile source = some t) : Unanalysed r t := by
  obtain ⟨hfiled, -, hkept, v, hversions, -, -, -, rfl, -⟩ := createFrom_first hr h
  exact ⟨hfiled, .createFrom hr.bounded h, hkept, [v], hversions, fun w hw => List.mem_singleton.mp hw ▸ hsource⟩

theorem edit (hr : r.Filed) {e : Edit} (h : e.apply r = some t) : Unanalysed r t := by
  have hrun : e.run r = t := by
    unfold Edit.run
    rw [h, Option.getD_some]
  obtain ⟨source, hsource, ⟨-, profile, hcreate⟩ | ⟨id, data, -, hdata, hupdate⟩⟩ := Registry.writes_of_apply h
  · exact createFrom hr hsource hcreate
  · refine ⟨hrun ▸ Registry.filed_run hr e, .updateWith hdata hupdate,
      fun id hid => hrun ▸ Registry.get_isSome_run hr.bounded e hid, ?_⟩
    obtain ⟨v, rfl, hversions⟩ := updateWith_versions hupdate
    exact ⟨[v], hversions, fun w hw => List.mem_singleton.mp hw ▸ hsource⟩

theorem seedPresets (hr : r.Filed) (h : r.seedPresets = some t) : Unanalysed r t := by
  refine foldlM_invariant (I := fun _ => Unanalysed r) (fun p rest u v hu hseed => hu.trans ?_) (refl hr) h
  rw [seedPreset_eq] at hseed
  split at hseed
  · obtain rfl := Option.some.inj hseed
    exact append hu.filed rfl
  · split at hseed
    · obtain rfl := Option.some.inj hseed
      exact refl hu.filed
    · cases hseed

end Unanalysed

/-! ## Deleting -/

section
variable {r t : Registry} {id : PersonaId}

theorem delete_versions (h : r.delete id = some t) : t.versions = r.versions.filter (·.personaId ≠ id) := by
  obtain ⟨_, -, h⟩ := Option.bind_eq_some_iff.mp h
  obtain rfl := Option.some.inj h
  rfl

theorem versionsOf_delete (h : r.delete id = some t) (j : PersonaId) :
    t.versionsOf j = if j = id then [] else r.versionsOf j := by
  unfold Registry.versionsOf
  rw [delete_versions h, List.filter_filter]
  split
  · next hj =>
      refine List.filter_eq_nil_iff.mpr fun v _ => ?_
      simp [hj]
  · next hj =>
      refine List.filter_congr fun v _ => ?_
      by_cases hv : v.personaId = j
      · simp [hv, hj]
      · simp [hv]

theorem delete_filed (hr : r.Filed) (h : r.delete id = some t) : t.Filed := by
  have hbounded := (Registry.deleted_bounded hr.bounded id).1
  rw [h, Option.getD_some] at hbounded
  refine ⟨hbounded, fun v hv => ?_, fun j => ?_⟩
  · rw [delete_versions h] at hv
    rw [fresh_delete h]
    exact hr.versions_lt v (List.mem_of_mem_filter hv)
  · rw [versionsOf_delete h]
    split
    · exact .nil
    · exact hr.numbered j

end

/-! ## Runs and the personas made of them -/

/-- The knobs of the run are all there, and in range like its confidence. -/
def AnalysisRunModel.InRange (run : AnalysisRunModel) : Prop :=
  (∀ k : Knob, ∃ x, run.knobs.lookup k.key = some x ∧ 0 ≤ x ∧ x ≤ 1) ∧
    0 ≤ run.confidenceScore ∧ run.confidenceScore ≤ 1

/-- What a persona is set to that is made of an analysis. -/
def defaultSettings : Settings := ⟨"", "llama3:8b", 7/10, 2000⟩

/-- The persona `id` was made of the run: it is there, and its first version is what was found. -/
def AnalysisRunModel.Made (run : AnalysisRunModel) (r : Registry) (id : PersonaId) : Prop :=
  (r.get id).isSome ∧ ∃ v, (r.versionsOf id).head? = some v ∧ v.versionNumber = 1 ∧ v.source = .analysis ∧
    (∀ k, run.knobs.lookup k.key = some (v.knobSnapshot k)) ∧ v.settingsSnapshot = defaultSettings

/-- **Where personas come from**: the runs and the versions out of an analysis tell the same. -/
structure Studio.Provenance (s : Studio) : Prop where
  recorded : ∀ run ∈ s.runs, run.InRange
  once : (s.runs.filterMap (·.personaId)).Nodup
  made : ∀ run ∈ s.runs, ∀ id, run.personaId = some id → run.Made s.registry id
  known : ∀ v ∈ s.registry.versions, v.source = .analysis →
    (s.registry.versionsOf v.personaId).head? = some v ∧ ∃ run ∈ s.runs, run.personaId = some v.personaId

structure Studio.Inv (s : Studio) : Prop extends s.Provenance where
  filed : s.registry.Filed

section
variable {s t : Studio} {r : Registry} {run : AnalysisRunModel} {id : PersonaId} {name : Option String}
  {personaId : Option PersonaId}

theorem AnalysisRunModel.Made.mono (h : run.Made s.registry id) (hr : Unanalysed s.registry r) : run.Made r id := by
  obtain ⟨hid, v, hhead, hv⟩ := h
  obtain ⟨added, hadded, -⟩ := hr.versions
  exact ⟨hr.kept id hid, v, head?_versionsOf hadded hhead, hv⟩

/-- A request without an analysis keeps what the runs tell. -/
theorem Studio.Inv.unanalysed (h : s.Inv) (hr : Unanalysed s.registry r) : Studio.Inv ⟨r, s.runs⟩ where
  recorded := h.recorded
  once := h.once
  made run hrun id hid := (h.made run hrun id hid).mono hr
  known v hv hsource := by
    obtain ⟨added, hadded, hothers⟩ := hr.versions
    rw [hadded] at hv
    rcases List.mem_append.mp hv with hv | hv
    · obtain ⟨hhead, hrun⟩ := h.known v hv hsource
      exact ⟨head?_versionsOf hadded hhead, hrun⟩
    · exact absurd hsource (hothers v hv)
  filed := hr.filed

theorem Studio.recordAnalysisRun_spec (h : s.recordAnalysisRun ext text found personaId = some t) :
    t = { s with runs := s.runs ++ [ext.analysisRun text found personaId] } :=
  (Option.some.inj (Option.ite_none_right_eq_some.mp h).2).symm

/-- **What an analysis leaves**: its run, and a persona if there is a name for it. -/
theorem Studio.analyse_spec (h : s.analyse ext llm text name = some (found, personaId, t)) :
    (∃ analysis, found.Of analysis) ∧ t.runs = s.runs ++ [ext.analysisRun text found personaId] ∧
      (name = none ∧ personaId = none ∧ t.registry = s.registry ∨
        ∃ n, name = some n ∧ personaId = some s.registry.fresh ∧ (found.fields n).Valid ∧
          s.registry.createFrom (found.fields n) .analysis = some t.registry) := by
  unfold analyse at h
  rcases runStyleAnalysis_spec ext llm text with ⟨found', analysis, hfound, hof⟩ | ⟨e, herror⟩
  · rw [hfound] at h
    cases name with
    | none =>
        obtain ⟨u, hu, h⟩ := Option.map_eq_some_iff.mp h
        have h : (found', none, u) = (found, personaId, t) := h
        rw [Prod.mk.injEq, Prod.mk.injEq] at h
        obtain ⟨rfl, rfl, rfl⟩ := h
        obtain rfl := recordAnalysisRun_spec hu
        exact ⟨⟨analysis, hof⟩, rfl, .inl ⟨rfl, rfl, rfl⟩⟩
    | some n =>
        obtain ⟨⟨id, u⟩, hcreate, h⟩ := Option.bind_eq_some_iff.mp h
        obtain ⟨w, hw, h⟩ := Option.bind_eq_some_iff.mp h
        have h : (found', some id, w) = (found, personaId, t) := Option.some.inj h
        rw [Prod.mk.injEq, Prod.mk.injEq] at h
        obtain ⟨rfl, rfl, rfl⟩ := h
        obtain ⟨persona, hpersona, hcreate⟩ := Option.bind_eq_some_iff.mp hcreate
        obtain ⟨registry, hregistry, hcreate⟩ := Option.bind_eq_some_iff.mp hcreate
        obtain ⟨rfl, rfl⟩ := Prod.mk.inj (Option.some.inj hcreate)
        obtain rfl := recordAnalysisRun_spec hw
        unfold buildPersonaFromKnobs PersonaProfile.ofFields? at hpersona
        split at hpersona
        · next hvalid =>
            obtain rfl := Option.some.inj hpersona
            exact ⟨⟨analysis, hof⟩, rfl, .inr ⟨n, rfl, rfl, hvalid, hregistry⟩⟩
        · cases hpersona
  · rw [herror] at h
    cases h

theorem Findings.Of.inRange (h : found.Of analysis) : (ext.analysisRun text found personaId).InRange := by
  obtain ⟨hrange, rfl⟩ := h
  exact ⟨fun k => ⟨analysis.knobs k, lookup_styleMap analysis k, hrange.knobs k⟩, hrange.confidenceScore⟩

/-- An analysis keeps what the runs tell, and a persona it makes is told of. -/
theorem Studio.Inv.analyse (h : s.Inv) (ht : s.analyse ext llm text name = some (found, personaId, t)) : t.Inv := by
  obtain ⟨⟨analysis, hof⟩, hruns, hcase⟩ := analyse_spec ht
  have hrecorded : ∀ run ∈ t.runs, run.InRange := by
    rw [hruns, List.forall_mem_append]
    exact ⟨h.recorded, List.forall_mem_singleton.mpr hof.inRange⟩
  obtain ⟨registry, runs⟩ := t
  obtain rfl : runs = _ := hruns
  rcases hcase with ⟨-, rfl, hregistry⟩ | ⟨n, -, rfl, -, hcreate⟩
  · obtain rfl : registry = s.registry := hregistry
    refine ⟨⟨hrecorded, ?_, ?_, fun v hv hsource => ?_⟩, h.filed⟩
    · rw [List.filterMap_append]
      exact (List.append_nil _).symm ▸ h.once
    · rw [List.forall_mem_append]
      exact ⟨h.made, List.forall_mem_singleton.mpr fun id hid => by cases hid⟩
    · obtain ⟨hhead, run, hrun, hid⟩ := h.known v hv hsource
      exact ⟨hhead, run, List.mem_append_left _ hrun, hid⟩
  · obtain ⟨hfiled, hnew, hkept, v, hversions, hfirst, hid, hnumber, hsource, hknobs, hsettings⟩ :=
      createFrom_first h.filed hcreate
    refine ⟨⟨hrecorded, ?_, ?_, fun w hw hanalysis => ?_⟩, hfiled⟩
    · rw [List.filterMap_append]
      refine List.nodup_append.mpr ⟨h.once, List.nodup_singleton _, fun i hi j hj => ?_⟩
      obtain rfl := List.mem_singleton.mp hj
      obtain ⟨run, hrun, hlink⟩ := List.mem_filterMap.mp hi
      exact Registry.ne_fresh_of_isSome h.filed.bounded (h.made run hrun i hlink).1
    · rw [List.forall_mem_append]
      refine ⟨fun run hrun i hi => ?_, List.forall_mem_singleton.mpr fun i hi => ?_⟩
      · obtain ⟨hsome, w, hhead, hw⟩ := h.made run hrun i hi
        exact ⟨hkept i hsome, w, head?_versionsOf hversions hhead, hw⟩
      · obtain rfl := Option.some.inj hi
        refine ⟨hnew, v, hfirst, hnumber, hsource, fun k => ?_, hsettings⟩
        rw [hknobs, hof.fields_knobs]
        obtain ⟨-, rfl⟩ := hof
        exact lookup_styleMap analysis k
    · rw [hversions] at hw
      rcases List.mem_append.mp hw with hw | hw
      · obtain ⟨hhead, run, hrun, hlink⟩ := h.known w hw hanalysis
        exact ⟨head?_versionsOf hversions hhead, run, List.mem_append_left _ hrun, hlink⟩
      · obtain rfl := List.mem_singleton.mp hw
        rw [hid]
        exact ⟨hfirst, _, List.mem_append_right _ List.mem_cons_self, rfl⟩

/-- What deleting a persona leaves of a run. -/
theorem unlink_eq_some {j : PersonaId} :
    (if run.personaId = some id then run.unlinked else run).personaId = some j ↔ run.personaId = some j ∧ j ≠ id := by
  split
  · next h =>
      rw [h]
      exact ⟨fun h => absurd h (Option.some_ne_none j).symm, fun h => absurd (Option.some.inj h.1).symm h.2⟩
  · next h =>
      refine ⟨fun hj => ⟨hj, ?_⟩, And.left⟩
      rintro rfl
      exact h hj

theorem Studio.Inv.deletePersona (h : s.Inv) (ht : s.deletePersona id = some t) : t.Inv := by
  obtain ⟨registry, hdelete, ht⟩ := Option.bind_eq_some_iff.mp ht
  obtain rfl := Option.some.inj ht
  refine ⟨⟨?_, ?_, ?_, fun v hv hsource => ?_⟩, delete_filed h.filed hdelete⟩
  · refine List.forall_mem_map.mpr fun run hrun => ?_
    have hrange := h.recorded run hrun
    split <;> exact hrange
  · have hlinks : (s.runs.map fun run => if run.personaId = some id then run.unlinked else run).filterMap
        (·.personaId) = (s.runs.filterMap (·.personaId)).filter (· ≠ id) := by
      rw [List.filterMap_map, List.filter_filterMap]
      refine congrArg (s.runs.filterMap ·) (funext fun run => Option.ext fun j => ?_)
      rw [Function.comp_apply, unlink_eq_some, Option.filter_eq_some_iff]
      simp
    exact hlinks ▸ h.once.filter _
  · refine List.forall_mem_map.mpr fun run hrun j hj => ?_
    obtain ⟨hrunj, hne⟩ := unlink_eq_some.mp hj
    obtain ⟨hsome, v, hhead, hv⟩ := h.made run hrun j hrunj
    have hrun : run.personaId ≠ some id := fun heq => hne (Option.some.inj (hrunj.symm.trans heq))
    rw [if_neg hrun]
    refine ⟨?_, v, ?_, hv⟩
    · rw [Registry.get_delete hdelete, if_neg hne]
      exact hsome
    · rw [versionsOf_delete hdelete, if_neg hne]
      exact hhead
  · rw [delete_versions hdelete] at hv
    obtain ⟨hmem, hne⟩ := List.mem_filter.mp hv
    have hne : v.personaId ≠ id := of_decide_eq_true hne
    obtain ⟨hhead, run, hrun, hlink⟩ := h.known v hmem hsource
    refine ⟨?_, _, List.mem_map_of_mem hrun, unlink_eq_some.mpr ⟨hlink, hne⟩⟩
    rw [versionsOf_delete hdelete, if_neg hne]
    exact hhead

/-! ## The service -/

/-- The endpoints are an analysis each. -/
theorem extractAnalysis_spec {body : AnalysisExtractRequest} {answer : AnalysisExtractResponse}
    (h : extractAnalysis ext llm s body = some (answer, t)) : ∃ found,
      s.analyse ext llm body.text body.wanted = some (found, answer.personaId, t) ∧
        answer = ⟨found.knobs, found.confidence, found.notes, answer.personaId⟩ := by
  obtain ⟨-, h⟩ := Option.ite_none_right_eq_some.mp h
  obtain ⟨⟨found, personaId, u⟩, hanalyse, h⟩ := Option.map_eq_some_iff.mp h
  obtain ⟨rfl, rfl⟩ := Prod.mk.inj h
  exact ⟨found, hanalyse, rfl⟩

theorem extractAndCreatePersona_spec {request : AnalysisCreateRequest} {answer : Option PersonaProfile}
    (h : extractAndCreatePersona ext llm s request = some (answer, t)) : ∃ found personaId,
      s.analyse ext llm request.text (some request.name) = some (found, personaId, t) ∧
        answer = personaId.bind t.registry.profileOf := by
  obtain ⟨-, h⟩ := Option.ite_none_right_eq_some.mp h
  obtain ⟨⟨found, personaId, u⟩, hanalyse, h⟩ := Option.map_eq_some_iff.mp h
  obtain ⟨rfl, rfl⟩ := Prod.mk.inj h
  exact ⟨found, personaId, hanalyse, rfl⟩

/-- Every run of `s` is still there, in its place: as it was, or without its persona if that is gone. -/
structure Studio.Continues (s t : Studio) : Prop where
  runs : ∀ (i : ℕ) (run : AnalysisRunModel), s.runs[i]? = some run → t.runs[i]? = some run ∨
    t.runs[i]? = some run.unlinked ∧ ∃ id, run.personaId = some id ∧ Gone t.registry id
  noneBack : NoneBack s.registry t.registry

namespace Studio.Continues

variable {u : Studio}

theorem refl (s : Studio) : s.Continues s := ⟨fun _ _ h => .inl h, .refl _⟩

theorem trans (h : s.Continues t) (h' : t.Continues u) : s.Continues u := by
  refine ⟨fun i run hrun => ?_, h.noneBack.trans h'.noneBack⟩
  rcases h.runs i run hrun with hsame | ⟨hunlinked, id, hid, hgone⟩
  · exact h'.runs i run hsame
  · refine .inr ⟨?_, id, hid, h'.noneBack id hgone⟩
    -- a run without a persona has none to lose
    rcases h'.runs i _ hunlinked with hsame | ⟨-, j, hj, -⟩
    · exact hsame
    · cases hj

/-- A request that only changes the personas. -/
theorem registry (h : NoneBack s.registry r) : s.Continues { s with registry := r } := ⟨fun _ _ hrun => .inl hrun, h⟩

theorem analyse (hs : s.registry.Filed) (h : s.analyse ext llm text name = some (found, personaId, t)) :
    s.Continues t := by
  obtain ⟨-, hruns, hcase⟩ := analyse_spec h
  refine ⟨fun i run hrun => .inl ?_, ?_⟩
  · rw [hruns]
    exact List.getElem?_append_left (List.getElem?_eq_some_iff.mp hrun).1 ▸ hrun
  · rcases hcase with ⟨-, -, hregistry⟩ | ⟨n, -, -, -, hcreate⟩
    · rw [hregistry]
      exact .refl _
    · exact .createFrom hs.bounded hcreate

theorem deletePersona (hs : s.Inv) (h : s.deletePersona id = some t) : s.Continues t := by
  obtain ⟨registry, hdelete, ht⟩ := Option.bind_eq_some_iff.mp h
  obtain rfl := Option.some.inj ht
  refine ⟨fun i run hrun => ?_, .delete hdelete⟩
  rw [List.getElem?_map, hrun, Option.map_some]
  split
  · next hlink =>
      obtain ⟨hsome, -⟩ := hs.made run (List.mem_of_getElem? hrun) id hlink
      have hlt := lt_fresh_of_isSome hs.filed.bounded hsome
      refine .inr ⟨rfl, id, hlink, hlt.trans_eq (fresh_delete hdelete).symm, ?_⟩
      rw [Registry.get_delete hdelete, if_pos rfl]
  · exact .inl rfl

end Studio.Continues

/-- What a request does: an analysis, a deletion, or something else on the personas. -/
theorem apply_cases {call : StudioCall} (hs : s.registry.Filed) (h : call.apply ext s = some t) :
    (∃ llm text name found personaId, s.analyse ext llm text name = some (found, personaId, t)) ∨
      (∃ id, s.deletePersona id = some t) ∨ ∃ r, Unanalysed s.registry r ∧ t = { s with registry := r } := by
  cases call with
  | extractAnalysis llm body =>
      obtain ⟨⟨answer, u⟩, hu, rfl⟩ := Option.map_eq_some_iff.mp h
      obtain ⟨found, hanalyse, -⟩ := extractAnalysis_spec hu
      exact .inl ⟨llm, body.text, body.wanted, found, answer.personaId, hanalyse⟩
  | extractAndCreatePersona llm request =>
      obtain ⟨⟨answer, u⟩, hu, rfl⟩ := Option.map_eq_some_iff.mp h
      obtain ⟨found, personaId, hanalyse, -⟩ := extractAndCreatePersona_spec hu
      exact .inl ⟨llm, request.text, some request.name, found, personaId, hanalyse⟩
  | edit e =>
      obtain ⟨r, hr, rfl⟩ := Option.map_eq_some_iff.mp h
      exact .inr (.inr ⟨r, .edit hs hr, rfl⟩)
  | importPersonaFromCyrex profile =>
      obtain ⟨r, hr, rfl⟩ := Option.map_eq_some_iff.mp h
      exact .inr (.inr ⟨r, .createFrom hs (by decide) hr, rfl⟩)
  | deletePersona id => exact .inr (.inl ⟨id, h⟩)
  | startup =>
      obtain ⟨r, hr, rfl⟩ := Option.map_eq_some_iff.mp h
      exact .inr (.inr ⟨r, .seedPresets hs hr, rfl⟩)
  | rewrite id data =>
      have hdata : ∀ m : PersonaModel, ({ data m with id := m.id } : PersonaModel).id = m.id := fun _ => rfl
      exact .inr (.inr ⟨_, .set hs hdata, (Option.some.inj h).symm⟩)
  | insert persona => exact .inr (.inr ⟨_, .append hs rfl, (Option.some.inj h).symm⟩)

theorem Studio.Inv.step {call : StudioCall} (h : s.Inv) (ht : (studio ext).step s call = some t) :
    t.Inv ∧ s.Continues t := by
  have ht : (call.apply ext s).getD s = t := Option.some.inj ht
  cases happly : call.apply ext s with
  | none =>
      rw [happly, Option.getD_none] at ht
      subst ht
      exact ⟨h, .refl s⟩
  | some u =>
      rw [happly, Option.getD_some] at ht
      subst ht
      rcases apply_cases h.filed happly with
        ⟨llm, text, name, found, personaId, hanalyse⟩ | ⟨id, hdelete⟩ | ⟨r, hr, rfl⟩
      · exact ⟨h.analyse hanalyse, .analyse h.filed hanalyse⟩
      · exact ⟨h.deletePersona hdelete, .deletePersona h hdelete⟩
      · exact ⟨h.unanalysed hr, .registry hr.noneBack⟩

theorem Studio.inv_of_reachable (h : (studio ext).Reachable s) : s.Inv := by
  refine h.invariant (fun s hs => ?_) fun s call t hs _ ht => (hs.step ht).1
  obtain ⟨hpersonas, hversions, hruns⟩ := hs
  refine ⟨⟨?_, ?_, ?_, ?_⟩, ?_, ?_, fun id => ?_⟩
  · rw [hruns]
    exact fun _ h => absurd h List.not_mem_nil
  · rw [hruns]
    exact List.nodup_nil
  · rw [hruns]
    exact fun _ h => absurd h List.not_mem_nil
  · rw [hversions]
    exact fun _ h => absurd h List.not_mem_nil
  · unfold Registry.Bounded
    rw [hpersonas]
    exact fun _ h => absurd h List.not_mem_nil
  · rw [hversions]
    exact fun _ h => absurd h List.not_mem_nil
  · unfold Registry.versionsOf
    rw [hversions]
    exact .nil

/-- What an analysis made is read back as it was found. -/
theorem Studio.Inv.reads (h : s.Inv) (ht : s.analyse ext llm text name = some (found, personaId, t)) :
    (personaId.isSome ↔ name.isSome) ∧ ∀ n ∈ name, ∀ id ∈ personaId,
      s.registry.get id = none ∧ t.registry.fieldsOf id = some (found.fields n) := by
  obtain ⟨-, -, ⟨rfl, rfl, -⟩ | ⟨n, rfl, rfl, hvalid, hcreate⟩⟩ := analyse_spec ht
  · exact ⟨Iff.rfl, fun n hn => by cases hn⟩
  · refine ⟨iff_of_true rfl rfl, fun m hm id hid => ?_⟩
    obtain rfl := Option.some.inj hm
    obtain rfl := Option.some.inj hid
    refine ⟨Registry.get_eq_none_of_bounded h.filed.bounded le_rfl, ?_⟩
    have hmodel : (found.fields n).model.length ≤ 100 := by
      show "llama3:8b".length ≤ 100
      decide
    obtain ⟨u, hu, -, hfields⟩ := Registry.createFrom_reads .analysis h.filed.bounded hvalid hmodel
    obtain rfl := Option.some.inj (hcreate.symm.trans hu)
    exact hfields

/-- **Where every persona comes from, and what is kept of every text**: in every state the runs and the versions out of
an analysis tell the same; an analysis is recorded as it was answered, and the persona it makes reads as found; no
later request changes or loses a run, and it loses its persona only with that. -/
theorem provenance (h : (studio ext).Reachable s) : s.Provenance ∧
    (∀ llm text name found personaId t, s.analyse ext llm text name = some (found, personaId, t) →
      t.runs = s.runs ++ [ext.analysisRun text found personaId] ∧ (personaId.isSome ↔ name.isSome) ∧
        ∀ n ∈ name, ∀ id ∈ personaId, s.registry.get id = none ∧ t.registry.fieldsOf id = some (found.fields n)) ∧
    ∀ t, (studio ext).Run always s t → s.Continues t := by
  have hs := Studio.inv_of_reachable h
  refine ⟨hs.toProvenance, fun llm text name found personaId t ht => ?_, fun t hrun => ?_⟩
  · obtain ⟨hid, hread⟩ := hs.reads ht
    exact ⟨(Studio.analyse_spec ht).2.1, hid, hread⟩
  · exact hrun.rel .refl (fun _ _ _ => .trans) (fun _ _ _ hs _ ht => hs.step ht) hs

end

/-! ## Two personas made of texts -/

/-- A model that finds humor. -/
def humorLLM : PersolaLLM where
  isAvailable := true
  generate _ := "\x7b\"humor\": 1, \"notes\": \"Dry.\"\x7d"

def plainExtractor : StyleExtractor := ⟨plainConversions, asciiCharacters, "openai", "gpt-4o-mini"⟩

/-- Two personas are made of texts. -/
def twoMade : List StudioCall :=
  [.extractAndCreatePersona humorLLM ⟨"Hello.", "Ada"⟩,
    .extractAnalysis humorLLM { text := "Hello again.", createPersona := true }]

/-- One of them gets a preset and the other is deleted. -/
def oneDeleted : List StudioCall := [.edit (.applyPreset 0 .creative), .deletePersona 1]

theorem provenance_madeAndDeleted : ∃ s t, (studio plainExtractor).exec ⟨⟨[], [], 0⟩, []⟩ twoMade = some s ∧
    (studio plainExtractor).exec s oneDeleted = some t ∧
    s.runs.map (·.personaId) = [some 0, some 1] ∧ t.runs.map (·.personaId) = [some 0, none] ∧
    (t.registry.versionsOf 0).map (·.source) = [.analysis, .preset] ∧ t.Provenance ∧ s.Continues t := by
  have hex : ((studio plainExtractor).exec ⟨⟨[], [], 0⟩, []⟩ twoMade).any (fun s =>
      decide (s.runs.map (·.personaId) = [some 0, some 1]) &&
        ((studio plainExtractor).exec s oneDeleted).any fun t =>
          decide (t.runs.map (·.personaId) = [some 0, none] ∧
            (t.registry.versionsOf 0).map (·.source) = [.analysis, .preset])) = true := by
    decide +kernel
  obtain ⟨s, hs, htest⟩ := System.exists_of_exec hex
  obtain ⟨hmade, htest⟩ := Bool.and_eq_true_iff.mp htest
  obtain ⟨t, ht, htest⟩ := System.exists_of_exec htest
  obtain ⟨hruns, hversions⟩ := of_decide_eq_true htest
  have hreach : (studio plainExtractor).Reachable s := System.reachable_of_exec ⟨rfl, rfl, rfl⟩ hs
  have hrun := System.run_of_exec ht
  exact ⟨s, t, hs, ht, of_decide_eq_true hmade, hruns, hversions, (provenance (System.Reach.run hreach hrun)).1,
    (provenance hreach).2.2 t hrun⟩

end Persola.Analysis
