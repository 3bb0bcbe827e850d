import Persola.City.LifeTick
import Mathlib.Tactic.NormNum

/-!
# `City.Drift` — how far the knobs of an heir drift

`_succeed_member` lets the overrides of the deceased drift, lays them over the knobs of the persona and lets the
result drift: the knobs of the persona drift once, those that were overridden twice. The drift of a knob depends on
its place in the dictionary, and the two places of an override have nothing to do with each other.
-/

namespace Persola.City

open Persona (Knob PersonaModel)

/-! ## One drift -/

/-- `delta`: what `mutate_knobs` adds to the `i`-th knob. -/
def drift (generation i : ℕ) : ℚ := ((((generation * 17 % 11 + i) % 5 : ℕ) : ℤ) - 2 : ℤ) * (3/100)

/-- The greatest of the drifts. -/
def driftStep : ℚ := 6/100

/-- Where a knob stands in a dictionary. -/
def placeOf (knobs : KnobMap) (k : Knob) : ℕ := (knobs.map Prod.fst).idxOf k

theorem drift_range (generation i : ℕ) : -driftStep ≤ drift generation i ∧ drift generation i ≤ driftStep := by
  have hmod : (generation * 17 % 11 + i) % 5 < 5 := Nat.mod_lt _ (by decide)
  have hlow : (-2 : ℤ) ≤ (((generation * 17 % 11 + i) % 5 : ℕ) : ℤ) - 2 := by omega
  have hhigh : (((generation * 17 % 11 + i) % 5 : ℕ) : ℤ) - 2 ≤ (2 : ℤ) := by omega
  have hlow : ((-2 : ℤ) : ℚ) ≤ (((((generation * 17 % 11 + i) % 5 : ℕ) : ℤ) - 2 : ℤ) : ℚ) := by exact_mod_cast hlow
  have hhigh : (((((generation * 17 % 11 + i) % 5 : ℕ) : ℤ) - 2 : ℤ) : ℚ) ≤ ((2 : ℤ) : ℚ) := by exact_mod_cast hhigh
  unfold drift driftStep
  push_cast at hlow hhigh ⊢
  constructor <;> linarith

/-- **`mutate_knobs`, knob by knob**: the drift of its place, and the clamp. -/
theorem lookup_mutateKnobs (knobs : KnobMap) (generation : ℕ) (k : Knob) :
    (mutateKnobs knobs generation).lookup k =
      (knobs.lookup k).map fun v => clampKnob (v + drift generation (placeOf knobs k)) := by
  have hfrom : ∀ (knobs : KnobMap) (i : ℕ),
      (knobs.mapIdx fun j kv => (kv.1, clampKnob (kv.2 + drift generation (i + j)))).lookup k =
        (knobs.lookup k).map fun v => clampKnob (v + drift generation (i + placeOf knobs k)) := by
    intro knobs
    induction knobs with
    | nil => exact fun i => rfl
    | cons kv knobs ih =>
        intro i
        rw [List.mapIdx_cons, List.lookup_cons, List.lookup_cons]
        by_cases hk : k = kv.1
        · subst hk
          simp [placeOf]
        · have hplace : placeOf (kv :: knobs) k = placeOf knobs k + 1 := by
            unfold placeOf
            rw [List.map_cons, List.idxOf_cons_ne _ (Ne.symm hk)]
          have hbeq : (k == kv.1) = false := beq_eq_false_iff_ne.mpr hk
          have hrest := ih (i + 1)
          simp only [hbeq, hplace]
          simpa only [Nat.add_assoc, Nat.add_comm 1] using hrest
  have hstart := hfrom knobs 0
  simp only [Nat.zero_add] at hstart
  exact hstart

/-! ## Two drifts -/

/-- A knob that drifts once stays within a step. -/
theorem clampKnob_drift {v a : ℚ} (hv : 0 ≤ v ∧ v ≤ 1) (ha : -driftStep ≤ a ∧ a ≤ driftStep) :
    |clampKnob (v + a) - v| ≤ driftStep := by
  unfold clampKnob driftStep at *
  rw [abs_le]
  constructor
  · have hmin : v - 6/100 ≤ min 1 (v + a) := le_min (by linarith) (by linarith)
    linarith [le_max_right 0 (min 1 (v + a))]
  · have hmax : max 0 (min 1 (v + a)) ≤ v + 6/100 :=
      max_le (by linarith) ((min_le_right _ _).trans (by linarith))
    linarith

/-- The drifts `a` and `b` of an override with the value `v` keep it within a step: they do not add up to more than
a step, or the value is that close to the bound it is pushed to; and the value is in range, or hardly out of it. -/
structure Settled (v a b : ℚ) : Prop where
  low : max b 0 - driftStep ≤ v
  high : v ≤ 1 + driftStep + min b 0
  up : 1 - driftStep ≤ v ∨ a + b ≤ driftStep
  down : v ≤ driftStep ∨ -driftStep ≤ a + b

theorem clampKnob_le_iff {v c : ℚ} : clampKnob v ≤ c ↔ 0 ≤ c ∧ (1 ≤ c ∨ v ≤ c) := by
  unfold clampKnob
  rw [max_le_iff, min_le_iff]

theorem le_clampKnob_iff {v c : ℚ} : c ≤ clampKnob v ↔ c ≤ 0 ∨ c ≤ 1 ∧ c ≤ v := by
  unfold clampKnob
  rw [le_max_iff, le_min_iff]

/-- **What drifts twice stays within a step exactly if it is settled.** -/
theorem clampKnob_drift_drift_iff {v a b : ℚ} (ha : -driftStep ≤ a ∧ a ≤ driftStep)
    (hb : -driftStep ≤ b ∧ b ≤ driftStep) :
    |clampKnob (clampKnob (v + a) + b) - v| ≤ driftStep ↔ Settled v a b := by
  have hup : clampKnob (clampKnob (v + a) + b) - v ≤ driftStep ↔
      max b 0 - driftStep ≤ v ∧ (1 - driftStep ≤ v ∨ a + b ≤ driftStep) := by
    rw [sub_le_iff_le_add, clampKnob_le_iff, ← le_sub_iff_add_le, clampKnob_le_iff]
    unfold driftStep at *
    grind
  have hdown : -driftStep ≤ clampKnob (clampKnob (v + a) + b) - v ↔
      v ≤ 1 + driftStep + min b 0 ∧ (v ≤ driftStep ∨ -driftStep ≤ a + b) := by
    rw [le_sub_iff_add_le, le_clampKnob_iff, ← sub_le_iff_le_add, le_clampKnob_iff]
    unfold driftStep at *
    grind
  rw [abs_le, hdown, hup]
  constructor
  · rintro ⟨⟨hhigh, hdown⟩, hlow, hup⟩
    exact ⟨hlow, hhigh, hup, hdown⟩
  · rintro ⟨hlow, hhigh, hup, hdown⟩
    exact ⟨⟨hhigh, hdown⟩, hlow, hup⟩

/-! ## Heirs -/

section
variable {tiers : ModelTier} {s t : Store} {m heir : FamilyMemberModel} {family : FamilyModel}
  {persona : PersonaModel}

/-- The persona of a member. -/
def Store.personaOf (s : Store) (m : FamilyMemberModel) : Option PersonaModel :=
  ((s.getAgent m.agentId).bind Agent.AgentModel.personaId).bind s.getPersona

/-- The value of a knob that counts for a member: the persona's, unless it is overridden. -/
def FamilyMemberModel.effective (m : FamilyMemberModel) (persona : PersonaModel) (k : Knob) : ℚ :=
  (m.knobOverrides.lookup k).getD (persona.knobs k)

theorem lookup_knobValues (persona : PersonaModel) (k : Knob) :
    (knobValues persona).lookup k = some (persona.knobs k) := by
  cases k <;> rfl

/-- A dictionary laid over all knobs has the places of the knobs. -/
theorem lookup_mergeKnobs (persona : PersonaModel) (overrides : KnobMap) (k : Knob) :
    (mergeKnobs (knobValues persona) overrides).lookup k = some ((overrides.lookup k).getD (persona.knobs k)) ∧
      placeOf (mergeKnobs (knobValues persona) overrides) k = Knob.fields.idxOf k := by
  have hnone : (overrides.filter fun kv => ((knobValues persona).lookup kv.1).isNone) = [] :=
    List.filter_eq_nil_iff.mpr fun kv _ => by simp [lookup_knobValues]
  have hmerge : mergeKnobs (knobValues persona) overrides =
      Knob.fields.map fun k => (k, (overrides.lookup k).getD (persona.knobs k)) := by
    unfold mergeKnobs
    rw [hnone, List.append_nil]
    exact List.map_map ..
  constructor
  · rw [hmerge]
    cases k <;> rfl
  · unfold placeOf
    rw [hmerge, List.map_map]
    exact congrArg (List.idxOf k) (List.map_id _)

/-- The two drifts of an override. -/
def FamilyMemberModel.overrideDrift (m : FamilyMemberModel) (k : Knob) : ℚ :=
  drift (m.generation + 1) (placeOf m.knobOverrides k)

/-- The drift that every knob gets. -/
def FamilyMemberModel.knobDrift (m : FamilyMemberModel) (k : Knob) : ℚ :=
  drift (m.generation + 1) (Knob.fields.idxOf k)

/-- **A knob of the heir**: once through the drift of its own place, and before that, if it was overridden, through the
drift of its place among the overrides. -/
theorem lookup_heirKnobs (hpersona : s.personaOf m = some persona) (k : Knob) : (s.heirKnobs m).lookup k =
    some (clampKnob (((m.knobOverrides.lookup k).map fun v => clampKnob (v + m.overrideDrift k)).getD
      (persona.knobs k) + m.knobDrift k)) := by
  obtain ⟨hlookup, hplace⟩ :=
    lookup_mergeKnobs persona (mutateKnobs m.knobOverrides (m.generation + 1)) k
  have hheir : s.heirKnobs m = mutateKnobs
      (mergeKnobs (knobValues persona) (mutateKnobs m.knobOverrides (m.generation + 1))) (m.generation + 1) := by
    unfold Store.heirKnobs
    dsimp only
    rw [show ((s.getAgent m.agentId).bind Agent.AgentModel.personaId).bind s.getPersona = some persona from hpersona]
  rw [hheir, lookup_mutateKnobs, hlookup, hplace, lookup_mutateKnobs]
  rfl

/-- The knobs of the heir, in its own row and in that of its persona: in range, and a step at most from what counted
for the deceased. -/
def DriftsSlightly (m : FamilyMemberModel) (persona : PersonaModel) (heir : FamilyMemberModel) (t : Store) : Prop :=
  ∃ agent ∈ t.agents, ∃ row ∈ t.personas, agent.id = heir.agentId ∧ agent.personaId = some row.id ∧
    ∀ k, heir.knobOverrides.lookup k = some (row.knobs k) ∧ (0 ≤ row.knobs k ∧ row.knobs k ≤ 1) ∧
      |row.knobs k - m.effective persona k| ≤ driftStep

/-- Every override is settled under its two drifts. -/
def FamilyMemberModel.SettledOverrides (m : FamilyMemberModel) : Prop :=
  ∀ k, ∀ v ∈ m.knobOverrides.lookup k, Settled v (m.overrideDrift k) (m.knobDrift k)

/-- The rows that a succession leaves of the heir. -/
theorem succeedMember_knobs (h : s.succeedMember tiers m family = some (heir, t)) :
    heir.knobOverrides = s.heirKnobs m ∧ ∃ agent ∈ t.agents, ∃ row ∈ t.personas, agent.id = heir.agentId ∧
      agent.personaId = some row.id ∧ row.knobs = knobsOr (s.heirKnobs m) := by
  obtain ⟨parent, -, h⟩ := Option.bind_eq_some_iff.mp h
  obtain ⟨profile, -, h⟩ := Option.bind_eq_some_iff.mp h
  obtain ⟨rfl, rfl⟩ := Prod.mk.inj (Option.some.inj h)
  exact ⟨rfl, _, List.mem_append_right _ List.mem_cons_self, _, List.mem_append_right _ List.mem_cons_self, rfl, rfl,
    rfl⟩

/-- **The knobs of an heir drift by one step at most exactly if the overrides of the deceased are settled.** -/
theorem slight_drift_iff (h : s.succeedMember tiers m family = some (heir, t))
    (hpersona : s.personaOf m = some persona) (hrange : ∀ k, 0 ≤ persona.knobs k ∧ persona.knobs k ≤ 1) :
    DriftsSlightly m persona heir t ↔ m.SettledOverrides := by
  obtain ⟨hheir, agent, hagent, row, hrow, hid, hpersonaId, hknobs⟩ := succeedMember_knobs h
  have hdrift (k : Knob) : |knobsOr (s.heirKnobs m) k - m.effective persona k| ≤ driftStep ↔
      ∀ v ∈ m.knobOverrides.lookup k, Settled v (m.overrideDrift k) (m.knobDrift k) := by
    have hfirst := drift_range (m.generation + 1) (placeOf m.knobOverrides k)
    have hsecond := drift_range (m.generation + 1) (Knob.fields.idxOf k)
    unfold knobsOr FamilyMemberModel.effective
    rw [lookup_heirKnobs hpersona, Option.getD_some]
    cases hlookup : m.knobOverrides.lookup k with
    | none => exact iff_of_true (clampKnob_drift (hrange k) hsecond) fun v hv => by cases hv
    | some v =>
        rw [Option.map_some, Option.getD_some, Option.getD_some]
        refine (clampKnob_drift_drift_iff hfirst hsecond).trans ?_
        exact ⟨fun hv v' hv' => Option.some.inj hv' ▸ hv, fun hall => hall v rfl⟩
  constructor
  · rintro ⟨_, -, row', -, -, -, hall⟩ k
    obtain ⟨hlookup, -, hstep⟩ := hall k
    have hsame : row'.knobs k = knobsOr (s.heirKnobs m) k := by
      unfold knobsOr
      rw [← hheir, hlookup]
      rfl
    rw [hsame] at hstep
    exact (hdrift k).mp hstep
  · intro hsettled
    refine ⟨agent, hagent, row, hrow, hid, hpersonaId, fun k => ⟨?_, ?_, ?_⟩⟩
    · rw [hheir, hknobs]
      unfold knobsOr
      rw [lookup_heirKnobs hpersona]
      rfl
    · rw [hknobs]
      unfold knobsOr
      rw [lookup_heirKnobs hpersona]
      exact clampKnob_range _
    · rw [hknobs]
      exact (hdrift k).mpr (hsettled k)

end

/-! ## A first heir -/

/-- The persona of a founder: every knob at a half. -/
def mossPersona : PersonaModel :=
  { id := 1, name := "Moss Persona", description := none, knobs := fun _ => 1/2, model := "large", systemPrompt := none,
    temperature := 7/10, maxTokens := 2000, isPreset := false }

/-- A city with the agent of one founder. -/
def mossCity : Store where
  families := []
  members := []
  agents := [{ id := 2, name := "Moss", model := none, systemPrompt := none, personaId := some 1 }]
  personas := [mossPersona]
  jobs := []
  fresh := 5

/-- The family of the founder. -/
def mossFamily : FamilyModel :=
  { id := 3, name := "Moss", description := none, defaultDistrict := .build, policy := {}, updatedAt := 0 }

/-- The founder, with one knob overridden. -/
def moss (k : Knob) (v : ℚ) : FamilyMemberModel :=
  { id := 4, familyId := 3, agentId := 2, parentMemberId := none, roleInFamily := .parent, roleLabel := none,
    knobOverrides := [(k, v)], toolTags := [], generation := 0, maxAgeTicks := 6, lifeStatus := .deceased,
    goals := [], dreams := [], structuredThinking := 1/2, growth := 0 }

theorem mossCity_persona (k : Knob) (v : ℚ) : mossCity.personaOf (moss k v) = some mossPersona := rfl

theorem mossPersona_range (k : Knob) : 0 ≤ mossPersona.knobs k ∧ mossPersona.knobs k ≤ 1 := by
  norm_num [mossPersona]

/-- `creativity` goes down by three hundredths twice. -/
theorem slight_drift_creativity : ∃ heir t, mossCity.succeedMember ⟨"large", "small"⟩ (moss .creativity (1/2)) mossFamily =
    some (heir, t) ∧ DriftsSlightly (moss .creativity (1/2)) mossPersona heir t := by
  have hex : (mossCity.succeedMember ⟨"large", "small"⟩ (moss .creativity (1/2)) mossFamily).isSome = true := by
    decide +kernel
  obtain ⟨⟨heir, t⟩, h⟩ := Option.isSome_iff_exists.mp hex
  refine ⟨heir, t, h, (slight_drift_iff h (mossCity_persona _ _) mossPersona_range).mpr fun k v hv => ?_⟩
  cases k with
  | creativity =>
      obtain rfl := Option.some.inj hv
      have hfirst : (moss .creativity (1/2)).overrideDrift .creativity = -3/100 := by decide +kernel
      have hsecond : (moss .creativity (1/2)).knobDrift .creativity = -3/100 := by decide +kernel
      rw [hfirst, hsecond]
      constructor <;> norm_num [driftStep]
  | _ => cases hv

/-- **`empathy` goes down by nine hundredths**: by three as the first override, and by six as the fifth knob. -/
theorem drifts_far_empathy : ∃ heir t, mossCity.succeedMember ⟨"large", "small"⟩ (moss .empathy (1/2)) mossFamily =
    some (heir, t) ∧ ¬ DriftsSlightly (moss .empathy (1/2)) mossPersona heir t := by
  have hex : (mossCity.succeedMember ⟨"large", "small"⟩ (moss .empathy (1/2)) mossFamily).any
      (fun r => r.1.knobOverrides.lookup .empathy = some (41/100)) = true := by
    decide +kernel
  obtain ⟨⟨heir, t⟩, h, hvalue⟩ := (Option.any_eq_true ..).mp hex
  refine ⟨heir, t, h, ?_⟩
  rintro ⟨-, -, row, -, -, -, hall⟩
  obtain ⟨hlookup, -, hstep⟩ := hall .empathy
  have hrow : row.knobs .empathy = 41/100 := Option.some.inj (hlookup.symm.trans (of_decide_eq_true hvalue))
  have heffective : (moss .empathy (1/2)).effective mossPersona .empathy = 1/2 := by decide +kernel
  rw [hrow, heffective] at hstep
  norm_num [driftStep, abs_le] at hstep

end Persola.City
