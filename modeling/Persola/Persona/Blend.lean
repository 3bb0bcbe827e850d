import Persola.Lib.Mean
import Persola.Lib.Percent
import Persola.Persona.Registry

/-!
# `Persona.Blend` — blends of two personas and of many

`blend_personas` mixes two profiles by a ratio, `blend_multiple` any number by weights. The knobs are a weighted
mean either way, so they stay in range. What may leave it is the name, which lists the names of all that are blended
and is validated like any other; the description is shorter than its limit whenever the name is. The older of
the two prints the ratios the wrong way round and forgets `max_tokens`.
-/

namespace Persola.Persona

/-! ## What is built -/

theorem PersonaProfile.ofFields?_isSome {fields : ProfileFields} :
    (PersonaProfile.ofFields? fields).isSome ↔ fields.Valid := by
  unfold PersonaProfile.ofFields?
  by_cases h : fields.Valid <;> simp [h]

theorem PersonaProfile.ofFields?_eq_some {fields : ProfileFields} {p : PersonaProfile}
    (h : PersonaProfile.ofFields? fields = some p) : p.toProfileFields = fields := by
  unfold PersonaProfile.ofFields? at h
  split at h
  · rw [← Option.some.inj h]
  · cases h

/-- How a description lists a persona. -/
def listed (p : PersonaProfile) (weight : ℚ) : String := p.name ++ " (" ++ Py.formatWhole (weight * 100) ++ "%)"

/-- What `blend_multiple` builds a profile of. -/
def blendFields (first : PersonaProfile) (profiles : List PersonaProfile) (weights : List ℚ) : ProfileFields where
  name := "Blended: " ++ ", ".intercalate (profiles.map (·.name))
  description := "Blend of " ++
    ", ".intercalate ((profiles.zip (weights.map (· / weights.sum))).map fun pw => listed pw.1 pw.2)
  knobs := fun k => ((profiles.zip (weights.map (· / weights.sum))).map fun pw => pw.1.knobs k * pw.2).sum
  systemPrompt := ""
  model := first.model
  temperature := first.temperature
  maxTokens := first.maxTokens

/-- What `blend_multiple` asks of its arguments. -/
structure Blendable (profiles : List PersonaProfile) (weights : List ℚ) : Prop where
  many : 2 ≤ profiles.length
  same_length : profiles.length = weights.length
  positive : ∀ w ∈ weights, 0 < w

/-- The weights of `profiles`, for the mean of a knob. -/
def weighted (profiles : List PersonaProfile) (weights : List ℚ) (k : Knob) : List (ℚ × ℚ) :=
  (profiles.zip weights).map fun pw => (pw.1.knobs k, pw.2)

section
variable {profiles : List PersonaProfile} {weights : List ℚ} {first p q : PersonaProfile} {ratio : ℚ} {k : Knob}

theorem blendMultiple_eq (h : Blendable profiles weights) : ∃ first ∈ profiles,
    profiles.head? = some first ∧ blendMultiple profiles weights =
      PersonaProfile.ofFields? (blendFields first profiles weights) := by
  obtain ⟨hmany, hlength, hpositive⟩ := h
  rcases profiles with _ | ⟨first, _ | ⟨second, rest⟩⟩
  · exact absurd hmany (by simp)
  · exact absurd hmany (by simp)
  · refine ⟨first, List.mem_cons_self, rfl, ?_⟩
    unfold blendMultiple
    dsimp only
    rw [if_pos ⟨hlength, hpositive⟩]
    rfl

theorem blendMultiple_of_not_blendable (h : ¬ Blendable profiles weights) : blendMultiple profiles weights = none := by
  rcases profiles with _ | ⟨first, _ | ⟨second, rest⟩⟩
  · rfl
  · rfl
  · unfold blendMultiple
    dsimp only
    rw [if_neg fun hall => h ⟨by simp, hall.1, hall.2⟩]

/-! ## Knobs -/

/-- A knob of a blend is the weighted mean. -/
theorem blendFields_knobs (hlength : profiles.length = weights.length) :
    (blendFields first profiles weights).knobs k = Mean.mean (weighted profiles weights k) := by
  have htotal : Mean.total (weighted profiles weights k) = weights.sum := by
    unfold Mean.total weighted
    rw [List.map_map]
    exact congrArg List.sum (List.map_snd_zip hlength.ge)
  show (((profiles.zip (weights.map (· / weights.sum))).map fun pw => pw.1.knobs k * pw.2)).sum = _
  unfold Mean.mean
  rw [htotal]
  unfold weighted
  rw [List.zip_map_right, List.map_map, List.map_map]
  rfl

theorem weighted_positive (h : Blendable profiles weights) : ∀ e ∈ weighted profiles weights k, 0 < e.2 := by
  intro e he
  obtain ⟨pw, hpw, rfl⟩ := List.mem_map.mp he
  exact h.positive _ (List.of_mem_zip hpw).2

theorem weighted_ne_nil (h : Blendable profiles weights) : weighted profiles weights k ≠ [] := by
  obtain ⟨hmany, hlength, -⟩ := h
  rw [← List.length_pos_iff]
  unfold weighted
  rw [List.length_map, List.length_zip]
  omega

/-- **A knob of a blend lies between the knobs that are blended.** -/
theorem blendFields_between (h : Blendable profiles weights) (first : PersonaProfile) (k : Knob) :
    (∃ p ∈ profiles, p.knobs k ≤ (blendFields first profiles weights).knobs k) ∧
      ∃ q ∈ profiles, (blendFields first profiles weights).knobs k ≤ q.knobs k := by
  rw [blendFields_knobs h.same_length]
  have hpositive := weighted_positive (k := k) h
  have hne := weighted_ne_nil (k := k) h
  constructor
  · obtain ⟨e, he, hle⟩ := Mean.exists_le_mean hpositive hne
    obtain ⟨pw, hpw, rfl⟩ := List.mem_map.mp he
    exact ⟨pw.1, (List.of_mem_zip hpw).1, hle⟩
  · obtain ⟨e, he, hle⟩ := Mean.exists_mean_le hpositive hne
    obtain ⟨pw, hpw, rfl⟩ := List.mem_map.mp he
    exact ⟨pw.1, (List.of_mem_zip hpw).1, hle⟩

/-! ## Texts -/

/-- A list with separators: one fewer than there are entries. -/
theorem length_intercalate (sep : String) (texts : List String) (hne : texts ≠ []) :
    (sep.intercalate texts).length + sep.length = (texts.map String.length).sum + sep.length * texts.length := by
  induction texts with
  | nil => exact absurd rfl hne
  | cons text texts ih =>
      cases texts with
      | nil => simp
      | cons second rest =>
          have hrest := ih (List.cons_ne_nil _ _)
          rw [String.intercalate_cons_cons, String.length_append, String.length_append, List.map_cons, List.sum_cons,
            List.length_cons]
          rw [Nat.mul_succ]
          omega

/-- The names of a blend fit. -/
def NamesFit (profiles : List PersonaProfile) : Prop :=
  (profiles.map (·.name.length)).sum + 2 * profiles.length ≤ 193

theorem length_name (first : PersonaProfile) (weights : List ℚ) (hne : profiles ≠ []) :
    (blendFields first profiles weights).name.length ≤ 200 ↔ NamesFit profiles := by
  have hlength := length_intercalate ", " (profiles.map (·.name)) (by simpa using hne)
  have hsep : ", ".length = 2 := by decide
  have hprefix : "Blended: ".length = 9 := by decide
  rw [List.map_map, List.length_map, hsep] at hlength
  have hsum : (profiles.map (String.length ∘ fun p => p.name)).sum = (profiles.map (·.name.length)).sum := rfl
  unfold blendFields NamesFit
  rw [String.length_append, hprefix]
  omega

/-- A persona in a list takes a few characters more than its name. -/
theorem length_listed (p : PersonaProfile) {weight : ℚ} (hweight : 0 ≤ weight) (hone : weight ≤ 1) :
    (listed p weight).length ≤ p.name.length + 7 := by
  have hdigits := Py.length_formatWhole_le (x := weight * 100) (by linarith) (by linarith)
  have hopen : " (".length = 2 := by decide
  have hclose : "%)".length = 2 := by decide
  unfold listed
  rw [String.length_append, String.length_append, String.length_append, hopen, hclose]
  omega

/-- The normalized weights are shares. -/
theorem share_range (h : Blendable profiles weights) {w : ℚ} (hw : w ∈ weights) :
    0 ≤ w / weights.sum ∧ w / weights.sum ≤ 1 := by
  have hle : w ≤ weights.sum := List.single_le_sum (fun v hv => (h.positive v hv).le) w hw
  have hsum : 0 < weights.sum := (h.positive w hw).trans_le hle
  exact ⟨div_nonneg (h.positive w hw).le hsum.le, (div_le_one hsum).mpr hle⟩

/-- The description of a blend is short enough if its name is. -/
theorem length_description (h : Blendable profiles weights) (hnames : NamesFit profiles) :
    (blendFields first profiles weights).description.length ≤ 2000 := by
  obtain ⟨hmany, hlength, -⟩ := id h
  have hne : profiles ≠ [] := by
    rw [← List.length_pos_iff]
    omega
  let pairs := profiles.zip (weights.map (· / weights.sum))
  have hpairs : pairs.length = profiles.length := by
    rw [List.length_zip, List.length_map, ← hlength, min_self]
  have hlisted : ((pairs.map fun pw => listed pw.1 pw.2).map String.length).sum ≤
      (pairs.map fun pw => pw.1.name.length + 7).sum := by
    rw [List.map_map]
    refine List.sum_le_sum fun pw hpw => ?_
    obtain ⟨w, hw, hshare⟩ := List.mem_map.mp (List.of_mem_zip hpw).2
    obtain ⟨hnonneg, hone⟩ := share_range h hw
    rw [hshare] at hnonneg hone
    exact length_listed pw.1 hnonneg hone
  have hnames' : (pairs.map fun pw => pw.1.name.length + 7).sum =
      (profiles.map (·.name.length)).sum + 7 * profiles.length := by
    have hfirst : pairs.map (fun pw => pw.1.name.length + 7) = profiles.map fun p => p.name.length + 7 := by
      have hzip : pairs.map Prod.fst = profiles := List.map_fst_zip (by rw [List.length_map, hlength])
      conv_rhs => rw [← hzip, List.map_map]
      rfl
    rw [hfirst]
    clear hlisted hpairs hfirst hne hnames hlength hmany h
    induction profiles with
    | nil => rfl
    | cons p profiles ih =>
        rw [List.map_cons, List.map_cons, List.sum_cons, List.sum_cons, List.length_cons, ih]
        omega
  have hjoin := length_intercalate ", " (pairs.map fun pw => listed pw.1 pw.2) (by
    rw [← List.length_pos_iff, List.length_map, hpairs]
    omega)
  have hsep : ", ".length = 2 := by decide
  have hprefix : "Blend of ".length = 9 := by decide
  rw [List.length_map, hpairs, hsep] at hjoin
  show ("Blend of " ++ ", ".intercalate (pairs.map fun pw => listed pw.1 pw.2)).length ≤ 2000
  unfold NamesFit at hnames
  rw [String.length_append, hprefix]
  omega

/-! ## Closure -/

/-- **A blend is valid exactly if the names fit.** -/
theorem blendFields_valid_iff (h : Blendable profiles weights) (hfirst : first ∈ profiles) :
    (blendFields first profiles weights).Valid ↔ NamesFit profiles := by
  have hname := length_name first weights (List.ne_nil_of_mem hfirst)
  constructor
  · exact fun hvalid => hname.mp hvalid.name_length
  · intro hnames
    refine ⟨hname.mpr hnames, length_description h hnames, fun k hk => ?_, first.valid.temperature_range,
      first.valid.maxTokens_range⟩
    obtain ⟨⟨p, hp, hlow⟩, q, hq, hhigh⟩ := blendFields_between h first k
    exact ⟨(p.valid.knobs_range k hk).1.trans hlow, hhigh.trans (q.valid.knobs_range k hk).2⟩

/-- **A blend of two is valid exactly if the names fit.** -/
theorem blendPersonas_isSome_iff (hratio : 0 ≤ ratio) (hone : ratio ≤ 1) :
    (blendPersonas p q ratio).isSome ↔ p.name.length + q.name.length ≤ 188 := by
  have hprefix : "Blended: ".length = 9 := by decide
  have hplus : " + ".length = 3 := by decide
  unfold blendPersonas
  rw [PersonaProfile.ofFields?_isSome]
  constructor
  · intro hvalid
    have hname := hvalid.name_length
    dsimp only at hname
    rw [String.length_append, String.length_append, String.length_append, hprefix, hplus] at hname
    omega
  · intro hnames
    refine ⟨?_, ?_, fun k hk => ?_, p.valid.temperature_range, by norm_num⟩
    · dsimp only
      rw [String.length_append, String.length_append, String.length_append, hprefix, hplus]
      omega
    · have hfirst := length_listed p hratio hone
      have hsecond := length_listed q (sub_nonneg.mpr hone) (sub_le_self 1 hratio)
      have htext : "Blend of " ++ p.name ++ " (" ++ Py.formatWhole (ratio * 100) ++ "%) and " ++ q.name ++ " (" ++
          Py.formatWhole ((1 - ratio) * 100) ++ "%)" =
            "Blend of " ++ listed p ratio ++ " and " ++ listed q (1 - ratio) := by
        have hclose : "%) and " = "%)" ++ " and " := by decide
        unfold listed
        rw [hclose]
        simp only [String.append_assoc]
      have hstart : "Blend of ".length = 9 := by decide
      have hand : " and ".length = 5 := by decide
      dsimp only
      rw [htext, String.length_append, String.length_append, String.length_append, hstart, hand]
      omega
    · obtain ⟨hp, hp'⟩ := p.valid.knobs_range k hk
      obtain ⟨hq, hq'⟩ := q.valid.knobs_range k hk
      have hrest := sub_nonneg.mpr hone
      dsimp only
      constructor
      · exact add_nonneg (mul_nonneg hp hrest) (mul_nonneg hq hratio)
      · nlinarith

end

/-- **Blending is closed exactly over personas whose names fit into the name of the blend.** -/
theorem blend_closed_iff (p q : PersonaProfile) {ratio : ℚ} (hratio : 0 ≤ ratio) (hone : ratio ≤ 1)
    {profiles : List PersonaProfile} {weights : List ℚ} (hmany : 2 ≤ profiles.length)
    (hlength : profiles.length = weights.length) (hpositive : ∀ w ∈ weights, 0 < w) :
    ((blendPersonas p q ratio).isSome ↔ p.name.length + q.name.length ≤ 188) ∧
      ((blendMultiple profiles weights).isSome ↔
        (profiles.map (·.name.length)).sum + 2 * profiles.length ≤ 193) := by
  have h : Blendable profiles weights := ⟨hmany, hlength, hpositive⟩
  obtain ⟨first, hfirst, -, heq⟩ := blendMultiple_eq h
  refine ⟨blendPersonas_isSome_iff hratio hone, ?_⟩
  rw [heq, PersonaProfile.ofFields?_isSome]
  exact blendFields_valid_iff h hfirst

/-- The built-in personas can be blended. -/
theorem blend_presets : (blendPersonas (applyPreset .creative) (applyPreset .analytical) (1/2)).isSome ∧
    (blendMultiple [applyPreset .creative, applyPreset .analytical] [1, 1]).isSome := by
  obtain ⟨hpair, hmultiple⟩ := @blend_closed_iff (applyPreset .creative) (applyPreset .analytical) (1/2)
    (by norm_num) (by norm_num) [applyPreset .creative, applyPreset .analytical] [1, 1]
    (by simp) (by simp) (by simp)
  exact ⟨hpair.mpr (by decide +kernel), hmultiple.mpr (by decide +kernel)⟩

/-- A preset under a name of a hundred letters. -/
def longNamed : PersonaProfile where
  toProfileFields := { presetFields .default with name := String.ofList (List.replicate 100 'a') }
  valid :=
    { presetFields_valid .default with
      name_length := by
        show (String.ofList (List.replicate 100 'a')).length ≤ 200
        rw [String.length_ofList, List.length_replicate]
        norm_num }

theorem longNamed_length : longNamed.name.length = 100 := by
  show (String.ofList (List.replicate 100 'a')).length = 100
  rw [String.length_ofList, List.length_replicate]

/-- **Two personas with names of a hundred letters cannot be blended.** -/
theorem blend_longNamed : ¬ ((∀ (p q : PersonaProfile) (ratio : ℚ), 0 ≤ ratio → ratio ≤ 1 →
      (blendPersonas p q ratio).isSome) ∧
    ∀ (profiles : List PersonaProfile) (weights : List ℚ), 2 ≤ profiles.length → profiles.length = weights.length →
      (∀ w ∈ weights, 0 < w) → (blendMultiple profiles weights).isSome) := by
  rintro ⟨hall, -⟩
  have hsome := hall longNamed longNamed (1/2) (by norm_num) (by norm_num)
  rw [blendPersonas_isSome_iff (by norm_num) (by norm_num), longNamed_length] at hsome
  exact absurd hsome (by norm_num)

/-! ## Two algorithms for two personas -/

/-- `blend_personas` and `blend_multiple` agree on two personas: the same mix, the same settings, and each persona
is listed with its weight in the mix. -/
def BlendAlike (p q : PersonaProfile) (ratio : ℚ) : Prop :=
  ∃ two many, blendPersonas p q ratio = some two ∧ blendMultiple [p, q] [1 - ratio, ratio] = some many ∧
    (∀ k, two.knobs k = p.knobs k * (1 - ratio) + q.knobs k * ratio) ∧ many.knobs = two.knobs ∧
    many.model = two.model ∧ many.temperature = two.temperature ∧ many.maxTokens = two.maxTokens ∧
    two.description = "Blend of " ++ listed p (1 - ratio) ++ " and " ++ listed q ratio ∧
    many.description = "Blend of " ++ listed p (1 - ratio) ++ ", " ++ listed q ratio

section
variable {p q : PersonaProfile} {ratio : ℚ}

/-- What `blend_multiple` makes of two. -/
theorem blendFields_two (p q : PersonaProfile) (ratio : ℚ) : blendFields p [p, q] [1 - ratio, ratio] =
    { name := "Blended: " ++ (p.name ++ ", " ++ q.name)
      description := "Blend of " ++ (listed p (1 - ratio) ++ ", " ++ listed q ratio)
      knobs := fun k => p.knobs k * (1 - ratio) + q.knobs k * ratio
      systemPrompt := ""
      model := p.model
      temperature := p.temperature
      maxTokens := p.maxTokens } := by
  have hsum : [1 - ratio, ratio].sum = 1 := by
    simp
  have hshares : [1 - ratio, ratio].map (· / [1 - ratio, ratio].sum) = [1 - ratio, ratio] := by
    rw [hsum]
    simp
  unfold blendFields
  rw [hshares]
  simp [String.intercalate_cons_cons, String.append_assoc]

/-- The description of `blend_personas` lists both with their weights exactly if these are halves, in print. -/
theorem description_iff (hratio : 0 ≤ ratio) (hone : ratio ≤ 1) :
    "Blend of " ++ p.name ++ " (" ++ Py.formatWhole (ratio * 100) ++ "%) and " ++ q.name ++ " (" ++
        Py.formatWhole ((1 - ratio) * 100) ++ "%)" =
      "Blend of " ++ listed p (1 - ratio) ++ " and " ++ listed q ratio ↔ |1 / 2 - ratio| ≤ 1 / 200 := by
  have hpercent : 0 ≤ ratio * 100 := by linarith
  have hrest : 0 ≤ (1 - ratio) * 100 := by linarith
  have hcomplement : (1 - ratio) * 100 = 100 - ratio * 100 := by ring
  have hscale : |50 - ratio * 100| = 100 * |1 / 2 - ratio| := by
    rw [← abs_of_pos (show (0 : ℚ) < 100 by norm_num), ← abs_mul, abs_of_pos (show (0 : ℚ) < 100 by norm_num)]
    congr 1
    ring
  have hclose : "%) and " = "%" ++ ") and " := by decide
  have halike := Py.formatWhole_complement_iff hpercent (by linarith)
  rw [← hcomplement, hscale] at halike
  have hhalf : 100 * |1 / 2 - ratio| ≤ 1 / 2 ↔ |1 / 2 - ratio| ≤ 1 / 200 := by
    constructor
    · intro h
      linarith
    · intro h
      linarith
  rw [← hhalf, ← halike]
  have hclose' : "%)" = "%" ++ ")" := by decide
  unfold listed
  rw [hclose, hclose']
  constructor
  · intro h
    simp only [String.append_assoc, String.append_right_inj] at h
    exact Py.formatWhole_of_percent hpercent hrest h
  · intro h
    rw [h]
    simp only [String.append_assoc]
    rfl

/-- **The two algorithms agree exactly** if the names fit into both blends, the first persona has as many tokens as a
new profile, and the ratio is a half, up to what is printed. -/
theorem blendAlike_iff (hratio : 0 < ratio) (hone : ratio < 1) : BlendAlike p q ratio ↔
    p.name.length + q.name.length ≤ 188 ∧ p.maxTokens = 2000 ∧ |1 / 2 - ratio| ≤ 1 / 200 := by
  have hblendable : Blendable [p, q] [1 - ratio, ratio] :=
    ⟨by simp, by simp, by simp [hratio, hone]⟩
  have hmany : blendMultiple [p, q] [1 - ratio, ratio] =
      PersonaProfile.ofFields? (blendFields p [p, q] [1 - ratio, ratio]) := by
    obtain ⟨first, -, hfirst, heq⟩ := blendMultiple_eq hblendable
    obtain rfl := Option.some.inj hfirst
    exact heq
  constructor
  · rintro ⟨two, many, htwo, hmany', -, -, -, -, htokens, hdescription, -⟩
    have hnames := (blendPersonas_isSome_iff hratio.le hone.le).mp (by rw [htwo]; rfl)
    have htwo' := PersonaProfile.ofFields?_eq_some htwo
    have hmany' := PersonaProfile.ofFields?_eq_some (hmany ▸ hmany')
    rw [blendFields_two] at hmany'
    refine ⟨hnames, ?_, ?_⟩
    · rw [htwo', hmany'] at htokens
      exact htokens
    · rw [htwo'] at hdescription
      exact (description_iff hratio.le hone.le).mp hdescription
  · rintro ⟨hnames, htokens, hhalf⟩
    obtain ⟨two, htwo⟩ := Option.isSome_iff_exists.mp ((blendPersonas_isSome_iff hratio.le hone.le).mpr hnames)
    have hvalid : (blendFields p [p, q] [1 - ratio, ratio]).Valid := by
      refine (blendFields_valid_iff hblendable List.mem_cons_self).mpr ?_
      unfold NamesFit
      simp
      omega
    obtain ⟨many, hmany'⟩ := Option.isSome_iff_exists.mp (PersonaProfile.ofFields?_isSome.mpr hvalid)
    have htwo' := PersonaProfile.ofFields?_eq_some htwo
    have hmany'' := PersonaProfile.ofFields?_eq_some hmany'
    rw [blendFields_two] at hmany''
    refine ⟨two, many, htwo, hmany.trans hmany', fun k => ?_, ?_⟩
    · rw [htwo']
    · rw [htwo', hmany'']
      refine ⟨rfl, rfl, rfl, htokens, (description_iff hratio.le hone.le).mpr hhalf, ?_⟩
      simp only [String.append_assoc]

/-- Two presets, half and half. -/
theorem blendAlike_halves : BlendAlike (applyPreset .creative) (applyPreset .analytical) (1/2) :=
  (blendAlike_iff (by norm_num) (by norm_num)).mpr (by decide +kernel)

/-- **A quarter of the second persona**: the description gives it three. -/
theorem blendAlike_quarter : ¬ ∀ (p q : PersonaProfile) (ratio : ℚ), 0 < ratio → ratio < 1 →
    BlendAlike p q ratio := by
  intro hall
  obtain ⟨two, -, htwo, -, -, -, -, -, -, hdescription, -⟩ :=
    hall (applyPreset .creative) (applyPreset .analytical) (1/4) (by norm_num) (by norm_num)
  rw [PersonaProfile.ofFields?_eq_some htwo] at hdescription
  have hhalf := (description_iff (by norm_num) (by norm_num)).mp hdescription
  norm_num [abs_le] at hhalf

end

/-! ## The mean of many -/

section
variable {profiles : List PersonaProfile} {weights : List ℚ} {blended : PersonaProfile}

theorem exists_blended (h : Blendable profiles weights) (hnames : NamesFit profiles) : ∃ blended,
    blendMultiple profiles weights = some blended ∧ ∀ k, blended.knobs k = Mean.mean (weighted profiles weights k) := by
  obtain ⟨first, hfirst, -, heq⟩ := blendMultiple_eq h
  obtain ⟨blended, hblended⟩ :=
    Option.isSome_iff_exists.mp (PersonaProfile.ofFields?_isSome.mpr ((blendFields_valid_iff h hfirst).mpr hnames))
  refine ⟨blended, heq.trans hblended, fun k => ?_⟩
  rw [PersonaProfile.ofFields?_eq_some hblended, blendFields_knobs h.same_length]

theorem blendable_of_eq_some (hblended : blendMultiple profiles weights = some blended) :
    Blendable profiles weights := by
  by_contra h
  rw [blendMultiple_of_not_blendable h] at hblended
  cases hblended

theorem not_blendable_iff : ¬ Blendable profiles weights ↔
    profiles.length ≠ weights.length ∨ profiles.length < 2 ∨ ∃ w ∈ weights, w ≤ 0 := by
  constructor
  · intro h
    by_contra hnone
    push Not at hnone
    exact h ⟨hnone.2.1, hnone.1, hnone.2.2⟩
  · rintro (hlength | hfew | ⟨w, hw, hnonpos⟩) h
    · exact hlength h.same_length
    · exact absurd h.many (not_le.mpr hfew)
    · exact absurd (h.positive w hw) (not_lt.mpr hnonpos)

/-- A list of pairs taken apart is blended by its means. -/
theorem exists_blended_pairs {pairs : List (PersonaProfile × ℚ)} (hmany : 2 ≤ pairs.length)
    (hpositive : ∀ pw ∈ pairs, 0 < pw.2) (hnames : NamesFit (pairs.map Prod.fst)) : ∃ blended,
    blendMultiple (pairs.map Prod.fst) (pairs.map Prod.snd) = some blended ∧
      ∀ k, blended.knobs k = Mean.mean (pairs.map fun pw => (pw.1.knobs k, pw.2)) := by
  have h : Blendable (pairs.map Prod.fst) (pairs.map Prod.snd) := by
    refine ⟨by rwa [List.length_map], by rw [List.length_map, List.length_map], fun w hw => ?_⟩
    obtain ⟨pw, hpw, rfl⟩ := List.mem_map.mp hw
    exact hpositive pw hpw
  obtain ⟨blended, hblended, hknobs⟩ := exists_blended h hnames
  refine ⟨blended, hblended, fun k => (hknobs k).trans ?_⟩
  unfold weighted
  have hzip : pairs = (pairs.map Prod.fst).zip (pairs.map Prod.snd) := List.zip_of_prod rfl rfl
  rw [← hzip]

end

/-- **`blend_multiple` is a weighted mean.** It raises for arguments that have no such mean and for no others; every
knob is the mean of the personas' knobs with their weights, so it lies between those of the personas; and it makes no
difference how the weights are scaled, in which order the personas are listed, or whether one is listed in two
parts. -/
theorem blendMultiple_isMean {profiles : List PersonaProfile} {weights : List ℚ} (hnames : NamesFit profiles) :
    (blendMultiple profiles weights = none ↔
      profiles.length ≠ weights.length ∨ profiles.length < 2 ∨ ∃ w ∈ weights, w ≤ 0) ∧
    ∀ blended, blendMultiple profiles weights = some blended →
      (∀ k, blended.knobs k = Mean.mean (weighted profiles weights k)) ∧
      (∀ k, (∃ p ∈ profiles, p.knobs k ≤ blended.knobs k) ∧ ∃ q ∈ profiles, blended.knobs k ≤ q.knobs k) ∧
      (∀ c, 0 < c → ∃ scaled, blendMultiple profiles (weights.map (c * ·)) = some scaled ∧
        scaled.knobs = blended.knobs) ∧
      (∀ pairs : List (PersonaProfile × ℚ), pairs.Perm (profiles.zip weights) → ∃ permuted,
        blendMultiple (pairs.map Prod.fst) (pairs.map Prod.snd) = some permuted ∧
          permuted.knobs = blended.knobs) ∧
      ∀ pre p w post u, profiles.zip weights = pre ++ (p, w) :: post → 0 < u → u < w →
        NamesFit ((pre ++ (p, u) :: (p, w - u) :: post).map Prod.fst) → ∃ parted,
          blendMultiple ((pre ++ (p, u) :: (p, w - u) :: post).map Prod.fst)
            ((pre ++ (p, u) :: (p, w - u) :: post).map Prod.snd) = some parted ∧
            parted.knobs = blended.knobs := by
  refine ⟨?_, fun blended hblended => ?_⟩
  · rw [← not_blendable_iff]
    constructor
    · intro hnone h
      obtain ⟨blended, hblended, -⟩ := exists_blended h hnames
      rw [hblended] at hnone
      cases hnone
    · exact blendMultiple_of_not_blendable
  · have h := blendable_of_eq_some hblended
    obtain ⟨first, -, -, heq⟩ := blendMultiple_eq h
    have hfields := PersonaProfile.ofFields?_eq_some (heq.symm.trans hblended)
    have hknobs (k : Knob) : blended.knobs k = Mean.mean (weighted profiles weights k) := by
      rw [hfields, blendFields_knobs h.same_length]
    have hzip : (profiles.zip weights).length = profiles.length := by
      rw [List.length_zip, ← h.same_length, min_self]
    have hpositive : ∀ pw ∈ profiles.zip weights, 0 < pw.2 := fun pw hpw => h.positive _ (List.of_mem_zip hpw).2
    have hfst : (profiles.zip weights).map Prod.fst = profiles := List.map_fst_zip h.same_length.le
    refine ⟨hknobs, fun k => ?_, fun c hc => ?_, fun pairs hperm => ?_,
      fun pre p w post u hpairs hu huw hfit => ?_⟩
    · rw [hfields]
      exact blendFields_between h first k
    · have hscaled : Blendable profiles (weights.map (c * ·)) := by
        refine ⟨h.many, by rw [List.length_map, h.same_length], fun w hw => ?_⟩
        obtain ⟨v, hv, rfl⟩ := List.mem_map.mp hw
        exact mul_pos hc (h.positive v hv)
      obtain ⟨scaled, hsome, hmean⟩ := exists_blended hscaled hnames
      refine ⟨scaled, hsome, funext fun k => ?_⟩
      rw [hmean, hknobs, ← Mean.mean_scale hc.ne' (weighted profiles weights k)]
      unfold weighted
      rw [List.zip_map_right, List.map_map, List.map_map]
      rfl
    · have hlength : pairs.length = profiles.length := hperm.length_eq.trans hzip
      have hfits : NamesFit (pairs.map Prod.fst) := by
        have hsame : (pairs.map Prod.fst).Perm profiles := hfst ▸ hperm.map Prod.fst
        unfold NamesFit
        rw [(hsame.map (·.name.length)).sum_eq, hsame.length_eq]
        exact hnames
      obtain ⟨permuted, hsome, hmean⟩ :=
        exists_blended_pairs (hlength ▸ h.many) (fun pw hpw => hpositive pw (hperm.mem_iff.mp hpw)) hfits
      refine ⟨permuted, hsome, funext fun k => ?_⟩
      rw [hmean, hknobs]
      exact Mean.mean_perm (hperm.map _)
    · have hlength : (pre ++ (p, u) :: (p, w - u) :: post).length = profiles.length + 1 := by
        rw [← hzip, hpairs]
        simp
        omega
      have hparts : ∀ pw ∈ pre ++ (p, u) :: (p, w - u) :: post, 0 < pw.2 := by
        rw [hpairs] at hpositive
        intro pw hpw
        rcases List.mem_append.mp hpw with hpre | hpost
        · exact hpositive pw (List.mem_append_left _ hpre)
        · rcases List.mem_cons.mp hpost with rfl | hpost
          · exact hu
          · rcases List.mem_cons.mp hpost with rfl | hpost
            · exact sub_pos.mpr huw
            · exact hpositive pw (List.mem_append_right _ (List.mem_cons_of_mem _ hpost))
      obtain ⟨parted, hsome, hmean⟩ :=
        exists_blended_pairs (hlength ▸ h.many.trans (Nat.le_succ _)) hparts hfit
      refine ⟨parted, hsome, funext fun k => ?_⟩
      rw [hmean, hknobs]
      unfold weighted
      rw [hpairs, List.map_append, List.map_append, List.map_cons, List.map_cons, List.map_cons]
      exact Mean.mean_split

/-- Three presets, one of them twice as much. -/
theorem blendMultiple_threePresets : ∃ blended,
    blendMultiple [applyPreset .creative, applyPreset .analytical, applyPreset .friendly] [1, 1, 2] = some blended ∧
      blended.knobs .creativity = ((applyPreset .creative).knobs .creativity +
        (applyPreset .analytical).knobs .creativity + 2 * (applyPreset .friendly).knobs .creativity) / 4 ∧
      ∃ scaled, blendMultiple [applyPreset .creative, applyPreset .analytical, applyPreset .friendly]
        ([1, 1, 2].map (3 * ·)) = some scaled ∧ scaled.knobs = blended.knobs := by
  have hnames : NamesFit [applyPreset .creative, applyPreset .analytical, applyPreset .friendly] := by
    unfold NamesFit
    decide +kernel
  obtain ⟨hraises, hmean⟩ := @blendMultiple_isMean _ [1, 1, 2] hnames
  obtain ⟨blended, hblended⟩ := Option.ne_none_iff_exists'.mp (mt hraises.mp (by norm_num))
  obtain ⟨hknobs, -, hscale, -⟩ := hmean blended hblended
  refine ⟨blended, hblended, ?_, hscale 3 (by norm_num)⟩
  rw [hknobs]
  decide +kernel

end Persola.Persona
