import Persola.Lib.Numbering
import Persola.Persona.Registry

/-!
# `Persona.History` — the version history of a persona

Every endpoint that writes a persona row records a version with the next number and the values of the row.
`Registry.Filed` is what makes that a history: the numbers of a persona's versions are `1, …, n`, and no
version is waiting for a persona still to come. The last version is the row, for every persona that has one
(`Registry.Documented`), and every request keeps that (`documented_run`).
-/

namespace Persola.Persona

namespace Registry

/-- The tables hang together. -/
structure Filed (r : Registry) : Prop where
  bounded : r.Bounded
  versions_lt : ∀ v ∈ r.versions, v.personaId < r.fresh
  numbered : ∀ id, Numbered (·.versionNumber) (r.versionsOf id)

/-- The last of the versions is the row. -/
def Shows (versions : List PersonaVersionModel) (persona : PersonaModel) : Prop :=
  ∀ v, versions.getLast? = some v →
    v.knobSnapshot = persona.knobs ∧ v.settingsSnapshot = persona.settingsValues

/-- **The history of every persona**: its version numbers are `1, …, n`, and version `n` is the row. -/
def Documented (r : Registry) : Prop :=
  ∀ id persona, r.get id = some persona →
    (r.versionsOf id).map (·.versionNumber) = List.range' 1 (r.versionsOf id).length ∧
    ∀ v ∈ r.versionsOf id, v.versionNumber = (r.versionsOf id).length →
      v.knobSnapshot = persona.knobs ∧ v.settingsSnapshot = persona.settingsValues

variable {r t : Registry} {persona : PersonaModel} {id : PersonaId}

theorem documented_iff (h : r.Filed) :
    r.Documented ↔ ∀ id persona, r.get id = some persona → Shows (r.versionsOf id) persona := by
  refine forall₃_congr fun id persona _ => ?_
  constructor
  · rintro ⟨-, hlast⟩ v hv
    have hmem := List.mem_of_getLast? hv
    exact hlast v hmem (((h.numbered id).getLast?_iff hmem).mp hv)
  · intro hshows
    refine ⟨h.numbered id, fun v hmem hnum => hshows v ?_⟩
    exact ((h.numbered id).getLast?_iff hmem).mpr hnum

/-- A persona still to come has no versions. -/
theorem versionsOf_eq_nil (h : r.Filed) (hid : r.fresh ≤ id) : r.versionsOf id = [] := by
  refine List.filter_eq_nil_iff.mpr fun v hv heq => ?_
  have hvid : v.personaId = id := of_decide_eq_true heq
  exact hid.not_gt (hvid ▸ h.versions_lt v hv)

theorem Filed.append (h : r.Filed) (hid : persona.id = r.fresh) : (r.append persona).Filed where
  bounded := append_bounded h.bounded hid
  versions_lt := fun v hv => (h.versions_lt v hv).trans (Nat.lt_succ_self _)
  numbered := h.numbered

theorem Filed.set (h : r.Filed) {f : PersonaModel → PersonaModel} (hf : ∀ m, (f m).id = m.id) :
    (r.set id f).Filed where
  bounded := set_bounded h.bounded hf
  versions_lt := h.versions_lt
  numbered := h.numbered

/-! ## Recording -/

/-- A record is appended to the versions of its persona. -/
theorem Records.versionsOf (h : r.Records t persona) : ∃ v : PersonaVersionModel,
    v.versionNumber = r.getLatestVersionNumber persona.id + 1 ∧ v.knobSnapshot = persona.knobs ∧
    v.settingsSnapshot = persona.settingsValues ∧
    ∀ id, t.versionsOf id = r.versionsOf id ++ if id = persona.id then [v] else [] := by
  obtain ⟨source, rfl⟩ := h
  refine ⟨⟨persona.id, r.getLatestVersionNumber persona.id + 1, source, persona.knobs,
    persona.settingsValues⟩, rfl, rfl, rfl, fun id => ?_⟩
  unfold Registry.versionsOf
  rw [List.filter_append]
  by_cases hid : id = persona.id
  · simp [hid]
  · simp [hid, Ne.symm hid]

/-- The next number is one more than there are versions. -/
theorem getLatestVersionNumber_eq (h : r.Filed) (id : PersonaId) :
    r.getLatestVersionNumber id = (r.versionsOf id).length := (h.numbered id).max?

theorem Records.filed (h : r.Records t persona) (hr : r.Filed) (hrow : r.get persona.id = some persona) :
    t.Filed := by
  obtain ⟨v, hnum, -, -, hversions⟩ := h.versionsOf
  have hlt : persona.id < r.fresh := by
    by_contra hge
    rw [get_eq_none_of_bounded hr.bounded (not_lt.mp hge)] at hrow
    cases hrow
  refine ⟨h.bounded hr.bounded, ?_, fun id => ?_⟩
  · obtain ⟨source, rfl⟩ := h
    intro w hw
    rcases List.mem_append.mp hw with hold | hnew
    · exact hr.versions_lt w hold
    · rw [List.mem_singleton.mp hnew]
      exact hlt
  · rw [hversions]
    split
    · next hid =>
        refine (hr.numbered id).snoc ?_
        rw [hnum, hid, getLatestVersionNumber_eq hr]
    · rw [List.append_nil]
      exact hr.numbered id

/-- **A record documents its persona**, and leaves the others as they are. -/
theorem Records.documented (h : r.Records t persona) (hr : r.Filed)
    (hrow : r.get persona.id = some persona)
    (hothers : ∀ id p, id ≠ persona.id → r.get id = some p → Shows (r.versionsOf id) p) :
    t.Documented := by
  rw [documented_iff (h.filed hr hrow)]
  obtain ⟨v, -, hknobs, hsettings, hversions⟩ := h.versionsOf
  intro id p hp
  rw [h.get] at hp
  rw [hversions]
  by_cases hid : id = persona.id
  · rw [if_pos hid]
    intro w hw
    rw [List.getLast?_append, List.getLast?_singleton, Option.some_or] at hw
    obtain rfl := Option.some.inj hw
    obtain rfl : persona = p := by
      rw [hid, hrow] at hp
      exact Option.some.inj hp
    exact ⟨hknobs, hsettings⟩
  · rw [if_neg hid, List.append_nil]
    exact hothers id p hid hp

/-! ## Requests -/

/-- A request that succeeds has its row in the table before it records it. -/
theorem Edited.recorded {edit : Edit} (h : r.Edited t edit) (hr : r.Filed) :
    ∃ (u : Registry) (persona : PersonaModel), u.Filed ∧ u.get persona.id = some persona ∧
      u.Records t persona ∧ (∀ id, u.versionsOf id = r.versionsOf id) ∧
      ∀ id, id ≠ persona.id → u.get id = r.get id := by
  unfold Edited at h
  cases hedit : edit.target with
  | none =>
      rw [hedit] at h
      obtain ⟨persona, hid, hrecords⟩ := h
      refine ⟨r.append persona, persona, hr.append hid, ?_, hrecords, fun _ => rfl, fun id hne => ?_⟩
      · rw [get_append hr.bounded hid, if_pos hid]
      · rw [get_append hr.bounded hid, if_neg (hid ▸ hne)]
  | some j =>
      rw [hedit] at h
      obtain ⟨persona, data, hget, hdata, -, hrecords⟩ := h
      have hid : (data persona).id = j := (hdata persona).trans (get_id hget)
      refine ⟨r.set j data, data persona, hr.set hdata, ?_, hrecords, fun _ => rfl, fun id hne => ?_⟩
      · rw [hid, get_set hdata, if_pos rfl, hget]
        rfl
      · rw [get_set hdata, if_neg (hid ▸ hne)]

/-- **Every request** keeps the tables filed and the personas documented. -/
theorem filed_run (hr : r.Filed) (edit : Edit) : (edit.run r).Filed := by
  unfold Edit.run
  cases happly : edit.apply r with
  | none => exact hr
  | some t =>
      obtain ⟨u, persona, hu, hrow, hrecords, -, -⟩ := (edited_of_apply happly).recorded hr
      exact hrecords.filed hu hrow

theorem documented_run (hr : r.Filed) (h : r.Documented) (edit : Edit) : (edit.run r).Documented := by
  unfold Edit.run
  cases happly : edit.apply r with
  | none => exact h
  | some t =>
      obtain ⟨u, persona, hu, hrow, hrecords, hversions, hget⟩ := (edited_of_apply happly).recorded hr
      refine hrecords.documented hu hrow fun id p hid hp => ?_
      rw [hversions]
      rw [hget id hid] at hp
      exact (documented_iff hr).mp h id p hp

end Registry

end Persola.Persona
