import Persola.Lib.Runs
import Persola.Persona.Registry

/-!
# `Persona.Seeding` — whether the service starts on its own data

`seed_presets` looks every preset up by its key, with a query that raises when two rows match. Nothing keeps a
persona from being given a preset's key as its name, by a request that creates it or renames it, so the next
startup may raise. `seedPresets_seeds_iff` says on which tables it does not, and that it then adds the missing
presets and nothing else.
-/

namespace Persola.Persona

open Registry Runs

variable {r t : Registry} {p q : PresetName}

/-! ## One preset -/

/-- The row a missing preset gets. -/
def Registry.presetRow (r : Registry) (p : PresetName) : PersonaModel :=
  PersonaModel.fromProfile r.fresh { presetFields p with name := p.value } true

/-- A preset always fits its columns. -/
theorem presetRow_storable (r : Registry) (p : PresetName) : (r.presetRow p).Storable := by
  have hvalid := presetFields_valid p
  exact
    { name_length := by
        show p.value.length ≤ 255
        cases p <;> decide
      model_length := by
        show (presetFields p).model.length ≤ 100
        cases p <;> decide
      knobs_range := hvalid.knobs_range
      temperature_range := hvalid.temperature_range
      maxTokens_range := hvalid.maxTokens_range }

theorem create_preset (r : Registry) (p : PresetName) :
    r.create { presetFields p with name := p.value } true =
      some (r.presetRow p, { r with personas := r.personas ++ [r.presetRow p], fresh := r.fresh + 1 }) :=
  if_pos (presetRow_storable r p)

/-- What a round does: it raises on two rows, keeps one, and adds a missing one. -/
theorem seedPreset_eq (r : Registry) (p : PresetName) : r.seedPreset p =
    if r.named p.value = [] then
      some { r with personas := r.personas ++ [r.presetRow p], fresh := r.fresh + 1 }
    else if (r.named p.value).length = 1 then some r
    else none := by
  unfold seedPreset getByName
  rcases h : r.named p.value with _ | ⟨a, _ | ⟨b, rest⟩⟩
  · rw [if_pos rfl]
    simp [create_preset]
  · simp
  · simp

theorem seedPreset_isSome_iff : (r.seedPreset p).isSome ↔ (r.named p.value).length ≤ 1 := by
  rw [seedPreset_eq]
  rcases h : r.named p.value with _ | ⟨a, _ | ⟨b, rest⟩⟩ <;> simp

/-- A new row is found under its own name only. -/
theorem named_append (m : PersonaModel) (name : String) (fresh : PersonaId) :
    ({ r with personas := r.personas ++ [m], fresh } : Registry).named name =
      r.named name ++ if m.name = name then [m] else [] := by
  unfold named
  rw [List.filter_append]
  by_cases h : m.name = name <;> simp [h]

/-- After its round a preset has one row. -/
theorem named_seedPreset_self (h : r.seedPreset p = some t) : (t.named p.value).length = 1 := by
  rw [seedPreset_eq] at h
  split at h
  · next hnone =>
      obtain rfl := Option.some.inj h
      have hname : (r.presetRow p).name = p.value := rfl
      rw [named_append, hnone, if_pos hname]
      rfl
  · split at h
    · next hone =>
        obtain rfl := Option.some.inj h
        exact hone
    · cases h

/-- The other presets are not touched. -/
theorem named_seedPreset_ne (h : r.seedPreset p = some t) (hne : q ≠ p) :
    t.named q.value = r.named q.value := by
  rw [seedPreset_eq] at h
  split at h
  · obtain rfl := Option.some.inj h
    rw [named_append, if_neg, List.append_nil]
    exact fun heq => hne (PresetName.value_injective heq).symm
  · split at h
    · obtain rfl := Option.some.inj h
      rfl
    · cases h

/-! ## A run of `seed_presets` -/

/-- `t` is `r` with missing presets added. -/
structure Registry.Adds (r t : Registry) : Prop where
  personas : ∃ added, t.personas = r.personas ++ added ∧
    ∀ m ∈ added, m.isPreset = true ∧ ∃ p : PresetName, r.named p.value = [] ∧ m.name = p.value
  versions : t.versions = r.versions

/-- The invariant of the loop: rounds done have one row, rounds to come find what was there. -/
structure Registry.Seeding (r : Registry) (rest : List PresetName) (u : Registry) : Prop where
  nodup : rest.Nodup
  pending : ∀ q ∈ rest, u.named q.value = r.named q.value
  done : ∀ q ∉ rest, (u.named q.value).length = 1
  adds : r.Adds u

theorem Registry.Adds.refl (r : Registry) : r.Adds r := ⟨⟨[], by simp⟩, rfl⟩

/-- **A round** keeps the invariant. -/
theorem Registry.Seeding.step {rest : List PresetName} {u v : Registry} (h : r.Seeding (p :: rest) u)
    (hseed : u.seedPreset p = some v) : r.Seeding rest v := by
  obtain ⟨hnot, hnodup⟩ := List.nodup_cons.mp h.nodup
  refine ⟨hnodup, fun q hq => ?_, fun q hq => ?_, ?_⟩
  · have hne : q ≠ p := fun heq => hnot (heq ▸ hq)
    rw [named_seedPreset_ne hseed hne]
    exact h.pending q (List.mem_cons_of_mem _ hq)
  · by_cases heq : q = p
    · rw [heq]
      exact named_seedPreset_self hseed
    · rw [named_seedPreset_ne hseed heq]
      exact h.done q fun hmem => (List.mem_cons.mp hmem).elim heq hq
  · obtain ⟨⟨added, hpersonas, hadded⟩, hversions⟩ := h.adds
    have hmissing := h.pending p List.mem_cons_self
    rw [seedPreset_eq] at hseed
    split at hseed
    · next hnone =>
        obtain rfl := Option.some.inj hseed
        refine ⟨⟨added ++ [u.presetRow p], ?_, ?_⟩, hversions⟩
        · show u.personas ++ [u.presetRow p] = _
          rw [hpersonas, List.append_assoc]
        · intro m hm
          rcases List.mem_append.mp hm with hold | hnew
          · exact hadded m hold
          · rw [List.mem_singleton.mp hnew]
            exact ⟨rfl, p, hmissing ▸ hnone, rfl⟩
    · split at hseed
      · obtain rfl := Option.some.inj hseed
        exact ⟨⟨added, hpersonas, hadded⟩, hversions⟩
      · cases hseed

theorem seeding_start (r : Registry) : r.Seeding PresetName.all r where
  nodup := PresetName.nodup_all
  pending := fun _ _ => rfl
  done := fun q hq => absurd (PresetName.mem_all q) hq
  adds := .refl r

theorem seeding_end (h : r.seedPresets = some t) : r.Seeding [] t :=
  foldlM_invariant (I := r.Seeding) (fun _ _ _ _ => Seeding.step) (seeding_start r) h

/-- **When startup completes**: no preset's key names two personas. -/
theorem seedPresets_isSome_iff : r.seedPresets.isSome ↔ ∀ p : PresetName, (r.named p.value).length ≤ 1 := by
  have hiff : r.seedPresets.isSome ↔ ∀ p ∈ PresetName.all, (r.named p.value).length ≤ 1 := by
    refine foldlM_isSome_iff (I := r.Seeding) (fun p rest u hu => ?_) (fun _ _ _ _ => Seeding.step)
      (seeding_start r)
    rw [seedPreset_isSome_iff, hu.pending p List.mem_cons_self]
  rw [hiff]
  exact ⟨fun h p => h p (PresetName.mem_all p), fun h p _ => h p⟩

/-- With all presets there, nothing happens. -/
theorem seedPresets_of_present (h : ∀ p : PresetName, (r.named p.value).length = 1) :
    r.seedPresets = some r := by
  have hround : ∀ p, r.seedPreset p = some r := by
    intro p
    have hsome : r.named p.value ≠ [] := fun hnil => by
      have hone := h p
      rw [hnil] at hone
      cases hone
    rw [seedPreset_eq, if_neg hsome, if_pos (h p)]
  unfold seedPresets
  induction PresetName.all with
  | nil => rfl
  | cons p rest ih =>
      rw [List.foldlM_cons, hround]
      exact ih

/-- Startup does what it is for: the presets are there, the rest of the table is as it was, and doing it again
does nothing. -/
structure Registry.Seeded (r t : Registry) : Prop where
  completes : r.seedPresets = some t
  present : ∀ p : PresetName, ∃ m ∈ t.personas, m.name = p.value
  adds : r.Adds t
  again : t.seedPresets = some t

theorem seeded_of_completes (h : r.seedPresets = some t) : r.Seeded t := by
  have hend := seeding_end h
  have hone : ∀ p : PresetName, (t.named p.value).length = 1 := fun p => hend.done p List.not_mem_nil
  refine ⟨h, fun p => ?_, hend.adds, seedPresets_of_present hone⟩
  obtain ⟨m, hm⟩ := List.exists_mem_of_length_pos (Nat.lt_of_lt_of_eq Nat.one_pos (hone p).symm)
  obtain ⟨hmem, hname⟩ := List.mem_filter.mp hm
  exact ⟨m, hmem, of_decide_eq_true hname⟩

/-! ## The service over its life -/

/-- A request, or a restart. -/
inductive ServiceEvent
  | request (edit : Edit)
  | startup

/-- The service: a request that fails leaves the tables alone, and so does a startup that raises. -/
def service : System Registry ServiceEvent where
  init r := r.personas = [] ∧ r.versions = []
  step r
    | .request edit => some (edit.run r)
    | .startup => some (r.seedPresets.getD r)

/-- **Startup completes, and does what it is for, exactly on the tables in which no preset's key names two
personas.** -/
theorem seedPresets_seeds_iff (r : Registry) :
    (∃ t, r.Seeded t) ↔ ∀ p : PresetName, (r.named p.value).length ≤ 1 := by
  rw [← seedPresets_isSome_iff, Option.isSome_iff_exists]
  exact exists_congr fun t => ⟨fun h => h.completes, seeded_of_completes⟩

/-- A persona with a preset's key as its name. -/
def namesake : PersonaProfile :=
  ⟨preset PresetName.creative.value "" [], by decide +kernel⟩

/-- **A first start, a persona named `creative`, a restart**: the second start raises. -/
theorem seedPresets_raises : ¬ ∀ r, service.Reachable r → ∃ t, r.Seeded t := by
  intro hall
  have hex : ((service.exec ⟨[], [], 0⟩ [.startup, .request (.createPersona namesake)]).any fun r =>
      r.seedPresets.isNone) = true := by
    decide +kernel
  obtain ⟨r, hrun, hnone⟩ := System.exists_of_exec hex
  obtain ⟨t, ht⟩ := hall r (System.reachable_of_exec ⟨rfl, rfl⟩ hrun)
  rw [ht.completes] at hnone
  cases hnone

end Persola.Persona
