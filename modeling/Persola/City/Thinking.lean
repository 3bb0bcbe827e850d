import Persola.City.Ecosystem
import Persola.City.Fates

/-!
# `City.Thinking` — a value of structured thinking, from where it is set to where it is used

`update_member_life` sets it, `_serialize_member` shows it, a tick lets it grow and `ecosystem_cohesion` counts it.
The last three read `x or 0.5`, so they use the value that was set unless it is zero (`usesValue_iff`).
-/

namespace Persola.City

open Store

variable {tiers : ModelTier} {s t u v : Store} {m : FamilyMemberModel} {x : ℚ} {goals dreams : Option (List String)}

/-- A step that does not come to the member's structured thinking: it does not set it, and is no tick over the
    member's family. -/
def LeavesThinking (m : FamilyMemberModel) (s : Store) : Call → Prop
  | .updateMemberLife id _ _ structuredThinking => id = m.id → structuredThinking = none
  | .lifeTick req => ∀ f ∈ s.tickFamilies req, f.id ≠ m.familyId
  | _ => True

/-- A value that `update_member_life` sets for a member is the value that is used. -/
structure Store.UsesValue (tiers : ModelTier) (s : Store) (m : FamilyMemberModel) (goals dreams : Option (List String))
    (x : ℚ) : Prop where
  shown : ∃ t row, updateMemberLife s m.id goals dreams (some x) = some t ∧ t.getMember m.id = some row ∧
    (serializeMember row).structuredThinking = x
  /-- The next tick over the family lets it grow, whatever happens in between. -/
  grows : ∀ t u v req proof, updateMemberLife s m.id goals dreams (some x) = some t →
    (system tiers).Run (LeavesThinking m) t u → (∃ f ∈ u.tickFamilies req, f.id = m.familyId) →
      lifeTick tiers u req = some (proof, v) → ∀ row ∈ v.members, row.id = m.id → row.lifeStatus = .alive →
        row.structuredThinking = min 1 (x + 15/1000)
  rises : ∀ y t u, x ≤ y → y ≤ 1 → updateMemberLife s m.id goals dreams (some x) = some t →
    updateMemberLife s m.id goals dreams (some y) = some u → t.cohesion m.familyId ≤ u.cohesion m.familyId

/-- The row of the member after `update_member_life`. -/
def FamilyMemberModel.withLife (goals dreams : Option (List String)) (x : ℚ) (m : FamilyMemberModel) :
    FamilyMemberModel :=
  { m with
    goals := (goals.map fun gs => (gs.map (truncate 200)).take 12).getD m.goals
    dreams := (dreams.map fun ds => (ds.map (truncate 200)).take 8).getD m.dreams
    structuredThinking := clampKnob x }

theorem getMember_of_mem (hs : s.Inv) (hm : m ∈ s.members) : s.getMember m.id = some m := by
  have hnodup : (s.members.map (·.id)).Nodup := by
    simpa [lineage, Function.comp_def, FamilyMemberModel.kin] using hs.wellFormed.nodup
  exact Table.find?_key hnodup hm

theorem updateMemberLife_eq (hs : s.Inv) (hm : m ∈ s.members) :
    updateMemberLife s m.id goals dreams (some x) = some (s.setMember m.id (·.withLife goals dreams x)) := by
  unfold updateMemberLife
  rw [getMember_of_mem hs hm]
  rfl

theorem clampKnob_eq (h0 : 0 ≤ x) (h1 : x ≤ 1) : clampKnob x = x := by
  rw [clampKnob, min_eq_right h1, max_eq_right h0]

/-! ## Between the update and the tick -/

/-- The member has a row with this value. -/
def Store.Thinks (s : Store) (m : FamilyMemberModel) (x : ℚ) : Prop :=
  ∃ row ∈ s.members, row.id = m.id ∧ row.familyId = m.familyId ∧ row.structuredThinking = x

theorem Store.Thinks.map (h : s.Thinks m x) {f : FamilyMemberModel → FamilyMemberModel}
    (hf : ∀ row, row.id = m.id → (f row).id = row.id ∧ (f row).familyId = row.familyId ∧
      (f row).structuredThinking = row.structuredThinking) (ht : t.members = s.members.map f) : t.Thinks m x := by
  obtain ⟨row, hrow, hid, hfam, hx⟩ := h
  obtain ⟨hid', hfam', hx'⟩ := hf row hid
  exact ⟨f row, ht ▸ List.mem_map_of_mem hrow, hid'.trans hid, hfam'.trans hfam, hx'.trans hx⟩

theorem Store.Thinks.append (h : s.Thinks m x) {new : List FamilyMemberModel} (ht : t.members = s.members ++ new) :
    t.Thinks m x := by
  obtain ⟨row, hrow, hrest⟩ := h
  exact ⟨row, ht ▸ List.mem_append_left _ hrow, hrest⟩

/-- **Step lemma**: whoever leaves the value alone keeps it. -/
theorem call_thinks (hs : s.Inv) (h : s.Thinks m x) {c : Call} (hc : LeavesThinking m s c)
    (hcall : s.call tiers c = some t) : t.Thinks m x := by
  cases c with
  | createFamily req now =>
      obtain ⟨⟨id, t'⟩, hcreate, rfl⟩ := Option.map_eq_some_iff.mp hcall
      obtain ⟨r, f, member, hhires, -, -, -, -, rfl⟩ := createFamily_spec hcreate
      exact h.append (by rw [← hhires.members]; rfl)
  | spawnChild req =>
      obtain ⟨⟨child, t'⟩, hspawn, rfl⟩ := Option.map_eq_some_iff.mp hcall
      obtain ⟨r, parent, member, hhires, -, -, -, -, rfl⟩ := spawnChild_spec hspawn
      exact h.append (by rw [← hhires.members]; rfl)
  | updateFamilyPolicy id patch now =>
      obtain ⟨family, -, hpolicy⟩ := Option.bind_eq_some_iff.mp hcall
      obtain ⟨maxAge, -, hpolicy⟩ := Option.bind_eq_some_iff.mp hpolicy
      obtain ⟨cohesion, -, hpolicy⟩ := Option.bind_eq_some_iff.mp hpolicy
      obtain rfl := Option.some.inj hpolicy
      refine h.map (fun row _ => ?_) rfl
      split <;> exact ⟨rfl, rfl, rfl⟩
  | updateMemberLife id goals dreams structuredThinking =>
      obtain ⟨_, -, hupdate⟩ := Option.bind_eq_some_iff.mp hcall
      obtain rfl := Option.some.inj hupdate
      refine h.map (fun row hrow => ?_) rfl
      split
      · next hid =>
          obtain rfl := hc (hid.symm.trans hrow)
          exact ⟨rfl, rfl, rfl⟩
      · exact ⟨rfl, rfl, rfl⟩
  | lifeTick req =>
      obtain ⟨⟨proof, t'⟩, htick, rfl⟩ := Option.map_eq_some_iff.mp hcall
      obtain ⟨row, hrow, hid, hfam, hx⟩ := h
      have hsame := lifeTick_elsewhere htick hs hc
      have hmem : row ∈ t'.membersOf m.familyId := hsame.symm ▸ mem_membersOf.mpr ⟨hrow, hfam⟩
      exact ⟨row, (mem_membersOf.mp hmem).1, hid, hfam, hx⟩
  | work jobs =>
      obtain rfl := Option.some.inj hcall
      exact h

/-! ## The tick -/

/-- **A tick over the family lets the value grow**, from a half if it is zero. -/
theorem lifeTick_thinks (hs : s.Inv) (h : s.Thinks m x) {req : TickRequest} {proof : LifeProof}
    (htick : lifeTick tiers s req = some (proof, t)) (hf : ∃ f ∈ s.tickFamilies req, f.id = m.familyId)
    {row : FamilyMemberModel} (hrow : row ∈ t.members) (hid : row.id = m.id) (halive : row.lifeStatus = .alive) :
    row.structuredThinking = min 1 (numOr x (1/2) + 15/1000) := by
  obtain ⟨old, hold, hid', hfam, rfl⟩ := h
  obtain ⟨f, hf, hfid⟩ := hf
  obtain ⟨heirs, hrows, -, -⟩ := lifeTick_rows htick hs hf
  have ht : t.Inv := (lifeTick_spec htick hs).1
  have hfate : old.fate f.policy req ∈ t.members := by
    have hmem : old.fate f.policy req ∈ t.membersOf f.id := by
      rw [hrows]
      exact List.mem_append_left _ (List.mem_map_of_mem (mem_membersOf.mpr ⟨hold, hfam.trans hfid.symm⟩))
    exact (mem_membersOf.mp hmem).1
  obtain rfl : row = old.fate f.policy req :=
    mem_members_unique ht hrow hfate (by rw [FamilyMemberModel.fate_id, hid, hid'])
  have hliving := ((ht.tables.vital _ hrow).living_iff).mpr halive
  rw [FamilyMemberModel.fate_living, Bool.and_eq_true, Bool.not_eq_true'] at hliving
  unfold FamilyMemberModel.fate
  rw [if_neg (by rw [hliving.2]; exact Bool.false_ne_true), if_pos hliving.1]
  rfl

/-! ## The value is used -/

theorem numOr_of_ne {a d : ℚ} (ha : a ≠ 0) : numOr a d = a := if_neg ha

theorem numOr_half_ne (a : ℚ) : numOr a (1/2) ≠ 0 := by
  unfold numOr
  split
  · norm_num
  · assumption

/-- Setting a value shows it. -/
theorem shown_setMember (hs : s.Inv) (hm : m ∈ s.members) (hx : x ≠ 0) (h0 : 0 ≤ x) (h1 : x ≤ 1) :
    ∃ row, (s.setMember m.id (·.withLife goals dreams x)).getMember m.id = some row ∧
      (serializeMember row).structuredThinking = x := by
  have hget : (s.setMember m.id (·.withLife goals dreams x)).getMember m.id =
      (s.getMember m.id).map fun row => if m.id = m.id then row.withLife goals dreams x else row :=
    Table.find?_modify fun _ => rfl
  rw [getMember_of_mem hs hm] at hget
  refine ⟨m.withLife goals dreams x, hget.trans (congrArg some (if_pos rfl)), ?_⟩
  show numOr (clampKnob x) (1/2) = x
  rw [clampKnob_eq h0 h1, numOr_of_ne hx]

/-- What was set is on the member's row. -/
theorem thinks_setMember (hm : m ∈ s.members) (h0 : 0 ≤ x) (h1 : x ≤ 1) :
    (s.setMember m.id (·.withLife goals dreams x)).Thinks m x := by
  refine ⟨m.withLife goals dreams x, ?_, rfl, rfl, clampKnob_eq h0 h1⟩
  exact List.mem_map.mpr ⟨m, hm, if_pos rfl⟩

/-- The larger the value, the larger the cohesion, unless it is zero. -/
theorem cohesion_setMember {y : ℚ} (hx : x ≠ 0) (h0 : 0 ≤ x) (hxy : x ≤ y) (h1 : y ≤ 1) (id : FamilyId) :
    (s.setMember m.id (·.withLife goals dreams x)).cohesion id ≤
      (s.setMember m.id (·.withLife goals dreams y)).cohesion id := by
  have hrows (z : ℚ) : (s.setMember m.id (·.withLife goals dreams z)).membersOf id =
      (s.membersOf id).map fun row => if row.id = m.id then row.withLife goals dreams z else row := by
    refine membersOf_map (fun row => ?_) id
    split <;> rfl
  have hy : y ≠ 0 := fun hzero => hx (le_antisymm (hzero ▸ hxy) h0)
  unfold Store.cohesion
  rw [hrows, hrows, List.map_map, List.map_map]
  refine ecosystemCohesion_mono ?_
  rw [List.forall₂_map_left_iff, List.forall₂_map_right_iff, List.forall₂_same]
  intro row _
  rw [Function.comp_apply, Function.comp_apply]
  split
  · refine ⟨rfl, ?_⟩
    show numOr (numOr (clampKnob x) (1/2)) (1/2) ≤ numOr (numOr (clampKnob y) (1/2)) (1/2)
    rw [clampKnob_eq h0 (hxy.trans h1), clampKnob_eq (h0.trans hxy) h1, numOr_of_ne hx, numOr_of_ne hx,
      numOr_of_ne hy, numOr_of_ne hy]
    exact hxy
  · exact SerializedMember.Thinks.refl _

/-- **A value that was set is the value that is used, unless it is zero.** -/
theorem usesValue_iff (h : (system tiers).Reachable s) (hm : m ∈ s.members) (h0 : 0 ≤ x) (h1 : x ≤ 1) :
    s.UsesValue tiers m goals dreams x ↔ x ≠ 0 := by
  have hs := inv_of_reachable h
  have hset (y : ℚ) : updateMemberLife s m.id goals dreams (some y) = _ := updateMemberLife_eq hs hm
  constructor
  · rintro hused rfl
    obtain ⟨t, row, -, -, hshown⟩ := hused.shown
    exact numOr_half_ne _ hshown
  · intro hx
    refine ⟨?_, ?_, ?_⟩
    · obtain ⟨row, hget, hshown⟩ : ∃ row, (s.setMember m.id (·.withLife goals dreams x)).getMember m.id = some row ∧
          (serializeMember row).structuredThinking = x := shown_setMember hs hm hx h0 h1
      exact ⟨_, row, hset x, hget, hshown⟩
    · intro t u v req proof hupdate hrun hfamily htick row hrow hid halive
      have ht : t.Inv := updateMemberLife_inv hs hupdate
      obtain rfl := Option.some.inj ((hset x).symm.trans hupdate)
      obtain ⟨hu, hthinks⟩ := hrun.invariant (I := fun r => r.Inv ∧ r.Thinks m x)
        (fun r c r' hr hc hcall => ⟨call_inv hr.1 hcall, call_thinks hr.1 hr.2 hc hcall⟩)
        ⟨ht, thinks_setMember hm h0 h1⟩
      rw [lifeTick_thinks hu hthinks htick hfamily hrow hid halive, numOr_of_ne hx]
    · intro y t u hxy hy hupdate hupdate'
      obtain rfl := Option.some.inj ((hset x).symm.trans hupdate)
      obtain rfl := Option.some.inj ((hset y).symm.trans hupdate')
      exact cohesion_setMember hx h0 hxy hy m.familyId

/-- A city with one founder. -/
def oneFounder : List Call := [.createFamily { name := "Moss" } 1]

/-- A founder who is told to think in nine cases of ten does. -/
theorem usesValue_oneFounder : ∃ s, (system ⟨"large", "small"⟩).exec emptyCity oneFounder = some s ∧
    ∃ m ∈ s.members, s.UsesValue ⟨"large", "small"⟩ m none none (9/10) := by
  have hex : ((system ⟨"large", "small"⟩).exec emptyCity oneFounder).any (fun s => !s.members.isEmpty) = true := by
    decide +kernel
  obtain ⟨s, hrun, hsome⟩ := Runs.System.exists_of_exec hex
  obtain ⟨m, hm⟩ := List.exists_mem_of_ne_nil s.members (by simpa using hsome)
  exact ⟨s, hrun, m, hm, (usesValue_iff (Runs.System.reachable_of_exec init_emptyCity hrun) hm (by norm_num)
    (by norm_num)).mpr (by norm_num)⟩

/-- **A founder who is told not to think at all is shown to think in half of the cases.** -/
theorem zero_not_used : ¬ ∀ (tiers : ModelTier) (s : Store) (m : FamilyMemberModel) (x : ℚ),
    (system tiers).Reachable s → m ∈ s.members → m.living → 0 ≤ x → x ≤ 1 → s.UsesValue tiers m none none x := by
  intro hclaim
  have hex : ((system ⟨"large", "small"⟩).exec emptyCity oneFounder).any (fun s => s.members.any (·.living)) =
      true := by
    decide +kernel
  obtain ⟨s, hrun, hany⟩ := Runs.System.exists_of_exec hex
  obtain ⟨m, hm, hliving⟩ := List.any_eq_true.mp hany
  have hreach := Runs.System.reachable_of_exec init_emptyCity hrun
  obtain ⟨t, row, -, -, hshown⟩ := (hclaim _ s m 0 hreach hm hliving le_rfl zero_le_one).shown
  exact numOr_half_ne _ hshown

end Persola.City
