import Persola.City.LifeTick
import Mathlib.Algebra.Order.BigOperators.Group.List
import Mathlib.Data.Finset.Card
import Mathlib.Data.Finset.Union

/-!
# `City.Ecosystem` — members as the API shows them, and the cohesion of a family

`_serialize_member` of `CityService`, `living_members` and `ecosystem_cohesion`. Of a serialized member the model
keeps what the planning of work and the cohesion read; a missing key is `none`.
-/

namespace Persola.City

open Agent (AgentId)

/-- A member as `_serialize_member` returns it. -/
structure SerializedMember where
  id : MemberId
  agentId : Option AgentId
  roleInFamily : FamilyMemberRole
  roleLabel : Option String
  isActive : Bool
  lifeStatus : FamilyMemberLifeStatus
  goals : List String
  structuredThinking : ℚ
  growth : ℚ
deriving DecidableEq

/-- `_serialize_member`. -/
def serializeMember (m : FamilyMemberModel) : SerializedMember where
  id := m.id
  agentId := some m.agentId
  roleInFamily := m.roleInFamily
  roleLabel := m.roleLabel
  isActive := m.isActive
  lifeStatus := m.lifeStatus
  goals := m.goals
  structuredThinking := numOr m.structuredThinking (1/2)
  growth := numOr m.growth 0

/-- The member is neither deceased nor inactive. -/
def SerializedMember.living (m : SerializedMember) : Bool := m.lifeStatus ≠ .deceased && m.isActive

/-- `living_members`. -/
def livingMembers (members : List SerializedMember) : List SerializedMember := members.filter (·.living)

theorem serializeMember_living (m : FamilyMemberModel) : (serializeMember m).living = m.living := by
  unfold SerializedMember.living serializeMember FamilyMemberModel.living
  cases m.lifeStatus <;> rfl

/-! ## Cohesion -/

/-- How much of the goals is shared. -/
def goalOverlap : List (Finset String) → ℚ
  | g :: g' :: rest =>
      ((g' :: rest).foldl (· ∩ ·) g).card / max 1 ((g' :: rest).foldl (· ∪ ·) g).card
  | _ => 6/10

/-- `ecosystem_cohesion`. -/
def ecosystemCohesion (members : List SerializedMember) : ℚ :=
  let alive := livingMembers members
  if alive.isEmpty then 0
  else
    let overlap := goalOverlap (alive.map (·.goals.toFinset))
    let thinking := (alive.map fun m => numOr m.structuredThinking (1/2)).sum / alive.length
    let growth := (alive.map fun m => numOr m.growth 0).sum / alive.length
    Py.round 4 (min 1 (35/100 * overlap + 4/10 * thinking + 25/100 * growth + 15/100))

/-- The cohesion that `city_ecosystem` reports for a family. -/
def Store.cohesion (s : Store) (id : FamilyId) : ℚ := ecosystemCohesion ((s.membersOf id).map serializeMember)

/-- `b` is `a`, and counts for at least as much structured thinking. -/
def SerializedMember.Thinks (a b : SerializedMember) : Prop :=
  b = { a with structuredThinking := b.structuredThinking } ∧
    numOr a.structuredThinking (1/2) ≤ numOr b.structuredThinking (1/2)

theorem SerializedMember.Thinks.refl (a : SerializedMember) : a.Thinks a := ⟨rfl, le_rfl⟩

/-- The living stay the living. -/
theorem livingMembers_thinks {as bs : List SerializedMember} (h : List.Forall₂ SerializedMember.Thinks as bs) :
    List.Forall₂ SerializedMember.Thinks (livingMembers as) (livingMembers bs) := by
  refine List.rel_filter (fun a b hab => ?_) h
  have hsame : b.living = a.living := by
    rw [hab.1]
    rfl
  show a.living = true ↔ b.living = true
  rw [hsame]

/-- What two lists of members have in common that differ in their thinking only. -/
theorem map_eq_of_thinks {α : Type*} {f : SerializedMember → α} (hf : ∀ (a : SerializedMember) (x : ℚ),
      f { a with structuredThinking := x } = f a)
    {as bs : List SerializedMember} (h : List.Forall₂ SerializedMember.Thinks as bs) : as.map f = bs.map f := by
  induction h with
  | nil => rfl
  | cons hab _ ih =>
      rw [List.map_cons, List.map_cons, ih]
      congr 1
      rw [hab.1]
      exact (hf _ _).symm

/-- **Cohesion rises with structured thinking.** -/
theorem ecosystemCohesion_mono {as bs : List SerializedMember}
    (h : List.Forall₂ SerializedMember.Thinks as bs) : ecosystemCohesion as ≤ ecosystemCohesion bs := by
  have halive := livingMembers_thinks h
  have hlength := halive.length_eq
  have hgoals := map_eq_of_thinks (f := fun m => m.goals.toFinset) (fun _ _ => rfl) halive
  have hgrowth := map_eq_of_thinks (f := fun m => numOr m.growth 0) (fun _ _ => rfl) halive
  have hthinking : ((livingMembers as).map fun m => numOr m.structuredThinking (1/2)).sum ≤
      ((livingMembers bs).map fun m => numOr m.structuredThinking (1/2)).sum :=
    List.Forall₂.sum_le_sum
      (List.forall₂_map_left_iff.mpr (List.forall₂_map_right_iff.mpr (halive.imp fun _ _ hab => hab.2)))
  have hempty : (livingMembers as).isEmpty = (livingMembers bs).isEmpty := by
    rw [Bool.eq_iff_iff, List.isEmpty_iff_length_eq_zero, List.isEmpty_iff_length_eq_zero, hlength]
  unfold ecosystemCohesion
  simp only [hempty, hgoals, hgrowth, hlength]
  split
  · exact le_rfl
  · refine Py.round_mono 4 (min_le_min_left 1 ?_)
    have hmean := div_le_div_of_nonneg_right hthinking (Nat.cast_nonneg (α := ℚ) (livingMembers bs).length)
    linarith

end Persola.City
