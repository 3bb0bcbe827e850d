import Persola.City.Ancestry

/-!
# `City.Fates` — the rows of a family after a tick

A tick gives every row of a family it comes to its fate (the row ages, and dies when it comes due) and adds an
heir for every death (`tickFamily_rows`). What it does to one family does not depend on the others
(`lifeTick_family`), so this says what the rows of every family are when the tick is through.
-/

namespace Persola.City

open Store

variable {tiers : ModelTier} {s r t : Store} {m heir : FamilyMemberModel} {family : FamilyModel}
  {now : Time} {p q : LifeProof} {req : TickRequest}

/-- What a tick makes of a row of a family it comes to. -/
def FamilyMemberModel.fate (policy : Policy) (req : TickRequest) (m : FamilyMemberModel) : FamilyMemberModel :=
  if m.comesDue policy req.forceAge then (m.age policy req.forceAge).die req.now
  else if m.living then m.age policy req.forceAge
  else m

/-- What an heir takes from the member it succeeds and the policy of the family. -/
structure FamilyMemberModel.IsHeir (policy : Policy) (deceased heir : FamilyMemberModel) : Prop where
  family : heir.familyId = deceased.familyId
  role : heir.roleInFamily = deceased.roleInFamily
  alive : heir.lifeStatus = .alive
  active : heir.isActive = true
  age : heir.ageTicks = 0
  limit : heir.maxAgeTicks = policy.maxAgeTicks.getD (numOr deceased.maxAgeTicks defaultMaxAgeTicks)
  thinking : heir.structuredThinking =
    min 1 (numOr deceased.structuredThinking (1/2) * (85/100) + deceased.growth * (2/10) + 5/100)
  growth : heir.growth = min 1 (deceased.growth * (5/10) + 1/10)

theorem FamilyMemberModel.fate_id (policy : Policy) : (m.fate policy req).id = m.id := by
  unfold fate
  split
  · rfl
  · split <;> rfl

theorem FamilyMemberModel.fate_living (policy : Policy) :
    (m.fate policy req).living = (m.living && !m.comesDue policy req.forceAge) := by
  unfold fate
  split
  · next hdue => simp [hdue, living, die]
  · next hdue =>
      split
      · next hliving =>
          have hsame : (m.age policy req.forceAge).living = m.living := rfl
          simp [hdue, hsame, hliving]
      · next hdead => simp [hdead]

/-! ## One death -/

/-- The rows a death writes: the member's own, and its heir's. -/
theorem passOn_rows (h : passOn tiers family now (p, s) m = some (q, t)) :
    ∃ parent heir, (s.bury m now).getParent family.id = some parent ∧
      t.members = (s.members.map fun x => if x.id = m.id then x.die now else x) ++ [heir] ∧
      s.fresh ≤ heir.id ∧ s.fresh ≤ t.fresh ∧ (m.familyId = family.id → m.IsHeir family.policy heir) ∧
      heir.parentMemberId =
        if m.roleInFamily = .parent then none else some (parentForLineage m parent) := by
  obtain ⟨⟨heir, u⟩, hsucceed, h⟩ := Option.bind_eq_some_iff.mp h
  obtain ⟨-, rfl⟩ := Prod.mk.inj (Option.some.inj h)
  obtain ⟨parent, hparent, hsucceed⟩ := Option.bind_eq_some_iff.mp hsucceed
  obtain ⟨profile, -, hsucceed⟩ := Option.bind_eq_some_iff.mp hsucceed
  obtain ⟨-, rfl⟩ := Prod.mk.inj (Option.some.inj hsucceed)
  refine ⟨parent, _, hparent, rfl, ?_, ?_, fun hfam => ?_, rfl⟩
  · exact Nat.le_add_right s.fresh 2
  · exact Nat.le_add_right s.fresh 3
  · exact ⟨hfam.symm, rfl, rfl, rfl, rfl, rfl, rfl, rfl⟩

/-- The rows of a family when one of them has died and an heir has come. -/
theorem membersOf_of_rows {id : FamilyId}
    (h : t.members = (s.members.map fun x => if x.id = m.id then x.die now else x) ++ [heir]) :
    t.membersOf id = ((s.membersOf id).map fun x => if x.id = m.id then x.die now else x) ++
      if heir.familyId = id then [heir] else [] := by
  have hmap : ({ s with members := s.members.map fun x => if x.id = m.id then x.die now else x } : Store).membersOf id =
      (s.membersOf id).map fun x => if x.id = m.id then x.die now else x := by
    refine membersOf_map (fun x => ?_) id
    split <;> rfl
  rw [← hmap]
  unfold membersOf
  rw [h, List.filter_append]
  congr 1
  by_cases hheir : heir.familyId = id <;> simp [hheir]

/-! ## One family -/

/-- The rows of a family while its deaths are under way: those of the members in `done` have died, and have
    their heirs. -/
structure Passing (s : Store) (family : FamilyModel) (req : TickRequest) (done heirs : List FamilyMemberModel)
    (u : Store) : Prop where
  rows : u.membersOf family.id = ((s.ageFamily family req.forceAge).membersOf family.id).map
    (fun x => if x.id ∈ done.map (·.id) then x.die req.now else x) ++ heirs
  succeeded : List.Forall₂ (FamilyMemberModel.IsHeir family.policy) done heirs
  fresh : s.fresh ≤ u.fresh
  new : ∀ x ∈ heirs, s.fresh ≤ x.id

/-- **Step lemma**: one more death. -/
theorem Passing.passOn {done heirs : List FamilyMemberModel} {u v : Store} (h : Passing s family req done heirs u)
    (hm : m.familyId = family.id) (hold : m.id < s.fresh)
    (hpass : City.passOn tiers family req.now (p, u) m = some (q, v)) :
    ∃ heir, Passing s family req (done ++ [m]) (heirs ++ [heir]) v := by
  obtain ⟨parent, heir, -, hmembers, hid, hfresh, hheir, -⟩ := passOn_rows hpass
  refine ⟨heir, ?_, ?_, h.fresh.trans hfresh, ?_⟩
  · have hsplit : v.membersOf family.id = _ := membersOf_of_rows hmembers
    rw [if_pos ((hheir hm).family.trans hm)] at hsplit
    have hheirs : (heirs.map fun x => if x.id = m.id then x.die req.now else x) = heirs := by
      refine (List.map_congr_left fun x hx => if_neg ?_).trans (List.map_id _)
      exact fun heq => absurd (h.new x hx) (not_le.mpr (heq ▸ hold))
    rw [hsplit, h.rows, List.map_append, hheirs, List.map_map, List.append_assoc]
    congr 1
    refine List.map_congr_left fun x _ => ?_
    rw [Function.comp_apply, List.map_append, List.map_singleton]
    by_cases hdone : x.id ∈ done.map (·.id)
    · rw [if_pos hdone, if_pos (List.mem_append_left _ hdone)]
      split <;> rfl
    · rw [if_neg hdone]
      by_cases hx : x.id = m.id
      · rw [if_pos hx, if_pos (List.mem_append_right _ (List.mem_singleton.mpr hx))]
      · have hneither : x.id ∉ done.map (·.id) ++ [m.id] := by simp [hdone, hx]
        rw [if_neg hx, if_neg hneither]
  · exact List.rel_append h.succeeded (.cons (hheir hm) .nil)
  · intro x hx
    rcases List.mem_append.mp hx with hx | hx
    · exact h.new x hx
    · rw [List.mem_singleton.mp hx]
      exact h.fresh.trans hid

/-- Who dies in a family: its members that come due. -/
theorem mem_deaths_ids (h : s.Inv) (hm : m ∈ s.membersOf family.id) :
    m.id ∈ (s.deaths family req).map (·.id) ↔ m.comesDue family.policy req.forceAge := by
  unfold deaths rowsOf
  rw [List.map_map, List.mem_map]
  constructor
  · rintro ⟨x, hx, hid⟩
    obtain ⟨hrow, hdue⟩ := List.mem_filter.mp hx
    obtain ⟨hxs, -⟩ := mem_membersOf.mp (Select.mem_orderBy.mp hrow)
    obtain rfl : x = m := mem_members_unique h hxs (mem_membersOf.mp hm).1 hid
    exact hdue
  · intro hdue
    exact ⟨m, List.mem_filter.mpr ⟨Select.mem_orderBy.mpr hm, hdue⟩, rfl⟩

theorem deaths_lt (h : s.Inv) (hm : m ∈ s.deaths family req) : m.id < s.fresh :=
  (ageFamily_inv h).tables.member_lt m ((doomed_deaths h).mem m hm).1

/-- **One family of a tick**: every row has its fate, and every death its heir. -/
theorem tickFamily_rows (h : tickFamily tiers req (p, s) family = some (q, t)) (hs : s.Inv) :
    ∃ heirs, t.membersOf family.id = (s.membersOf family.id).map (·.fate family.policy req) ++ heirs ∧
      List.Forall₂ (FamilyMemberModel.IsHeir family.policy) (s.deaths family req) heirs ∧
      s.fresh ≤ t.fresh ∧ ∀ x ∈ heirs, s.fresh ≤ x.id := by
  have hstart : Passing s family req [] [] (s.ageFamily family req.forceAge) :=
    ⟨by simp, .nil, le_rfl, by simp⟩
  have hend := tickFamily_rule
    (P := fun rest u => ∃ done heirs, done ++ rest = s.deaths family req ∧ Passing s family req done heirs u.2)
    ?_ hs h ⟨[], [], rfl, hstart⟩
  · obtain ⟨-, done, heirs, hdone, hpassing⟩ := hend
    rw [List.append_nil] at hdone
    subst hdone
    refine ⟨heirs, ?_, hpassing.succeeded, hpassing.fresh, hpassing.new⟩
    rw [hpassing.rows, membersOf_ageFamily, List.map_map]
    congr 1
    refine List.map_congr_left fun m hm => ?_
    have hfam := (mem_membersOf.mp hm).2
    unfold FamilyMemberModel.fate
    show (if (if m.familyId = family.id ∧ m.living then m.age family.policy req.forceAge else m).id ∈ _
      then _ else _) = _
    by_cases hliving : m.living = true
    · simp only [hfam, hliving, true_and, if_true]
      exact if_congr (mem_deaths_ids hs hm) rfl rfl
    · have hlives : m.comesDue family.policy req.forceAge = false := by
        simp [FamilyMemberModel.comesDue, hliving]
      simp only [hliving, hlives, and_false, if_false, Bool.false_eq_true]
      refine if_neg fun hdead => ?_
      exact absurd ((mem_deaths_ids hs hm).mp hdead) (by rw [hlives]; exact Bool.false_ne_true)
  · rintro m rest p' q' u v - - - hfam ⟨done, heirs, hdone, hpassing⟩ hpass
    have hmem : m ∈ s.deaths family req := hdone ▸ List.mem_append_right _ List.mem_cons_self
    obtain ⟨heir, hnext⟩ := hpassing.passOn hfam (deaths_lt hs hmem) hpass
    exact ⟨done ++ [m], heirs ++ [heir], by rw [← hdone, List.append_assoc]; rfl, hnext⟩

/-! ## The whole tick -/

/-- **A tick, seen from one family**: it comes to the family once, and finds and leaves the rows as they are
    before and after the tick. -/
theorem lifeTick_family (h : lifeTick tiers s req = some (q, t)) (hs : s.Inv) (hf : family ∈ s.tickFamilies req) :
    ∃ p' q' u v, u.Inv ∧ s.fresh ≤ u.fresh ∧ u.families = s.families ∧
      u.membersOf family.id = s.membersOf family.id ∧ tickFamily tiers req (p', u) family = some (q', v) ∧
        t.membersOf family.id = v.membersOf family.id := by
  have hend := lifeTick_rule
    (P := fun rest w => s.fresh ≤ w.2.fresh ∧ w.2.families = s.families ∧ (family ∉ rest → ∃ p' q' u v, u.Inv ∧
      s.fresh ≤ u.fresh ∧ u.families = s.families ∧ u.membersOf family.id = s.membersOf family.id ∧
        tickFamily tiers req (p', u) family = some (q', v) ∧ w.2.membersOf family.id = v.membersOf family.id))
    ?_ hs h ⟨le_rfl, rfl, fun hnot => absurd hf hnot⟩
  · exact hend.2.2.2 List.not_mem_nil
  · rintro f rest p' q' u v hu hsuffix hsame ⟨hfresh, hfamilies, hdone⟩ htick
    obtain ⟨-, hrows, -, hfresh', -⟩ := tickFamily_rows htick hu
    obtain ⟨-, hpasses, -⟩ := tickFamily_spec htick hu
    refine ⟨hfresh.trans hfresh', hpasses.families.trans hfamilies, fun hnot => ?_⟩
    by_cases hff : family = f
    · subst hff
      exact ⟨p', q', u, v, hu, hfresh, hfamilies, hsame, htick, rfl⟩
    · have hid : family.id ≠ f.id := fun heq =>
        hff (List.inj_on_of_nodup_map (tickFamilies_nodup hs.tables) hf
          (hsuffix.subset List.mem_cons_self) heq)
      obtain ⟨p₀, q₀, u₀, v₀, hu₀, hfresh₀, hfamilies₀, hsame₀, htick₀, hthere⟩ :=
        hdone (by simp [hff, hnot])
      exact ⟨p₀, q₀, u₀, v₀, hu₀, hfresh₀, hfamilies₀, hsame₀, htick₀, (hpasses.elsewhere _ hid).trans hthere⟩

/-- The rows of a family the tick does not come to stay as they are. -/
theorem lifeTick_elsewhere (h : lifeTick tiers s req = some (q, t)) (hs : s.Inv) {id : FamilyId}
    (hid : ∀ f ∈ s.tickFamilies req, f.id ≠ id) : t.membersOf id = s.membersOf id := by
  have hend := lifeTick_rule (P := fun _ w => w.2.membersOf id = s.membersOf id) ?_ hs h rfl
  · exact hend.2
  · rintro f rest p' q' u v hu hsuffix - hsame htick
    obtain ⟨-, hpasses, -⟩ := tickFamily_spec htick hu
    exact (hpasses.elsewhere id (hid f (hsuffix.subset List.mem_cons_self)).symm).trans hsame

theorem exists_of_mem_deaths (h : m ∈ s.deaths family req) : ∃ x ∈ s.membersOf family.id,
    x.comesDue family.policy req.forceAge ∧ m = x.age family.policy req.forceAge := by
  obtain ⟨x, hx, rfl⟩ := List.mem_map.mp h
  obtain ⟨hrow, hdue⟩ := List.mem_filter.mp hx
  exact ⟨x, Select.mem_orderBy.mp hrow, hdue, rfl⟩

/-- Every heir has a member it succeeds. -/
theorem exists_succeeded {policy : Policy} {deaths heirs : List FamilyMemberModel}
    (h : List.Forall₂ (FamilyMemberModel.IsHeir policy) deaths heirs) (hheir : heir ∈ heirs) :
    ∃ d ∈ deaths, d.IsHeir policy heir := by
  induction h with
  | nil => cases hheir
  | cons hd _ ih =>
      rcases List.mem_cons.mp hheir with rfl | hrest
      · exact ⟨_, List.mem_cons_self, hd⟩
      · obtain ⟨d, hmem, hd'⟩ := ih hrest
        exact ⟨d, List.mem_cons_of_mem _ hmem, hd'⟩

/-- **The rows of a family after a tick.** -/
theorem lifeTick_rows (h : lifeTick tiers s req = some (q, t)) (hs : s.Inv) (hf : family ∈ s.tickFamilies req) :
    ∃ heirs, t.membersOf family.id = (s.membersOf family.id).map (·.fate family.policy req) ++ heirs ∧
      List.Forall₂ (FamilyMemberModel.IsHeir family.policy) (s.deaths family req) heirs ∧
      ∀ x ∈ heirs, s.fresh ≤ x.id := by
  obtain ⟨p', q', u, v, hu, hfresh, -, hsame, htick, hend⟩ := lifeTick_family h hs hf
  obtain ⟨heirs, hrows, hheirs, -, hnew⟩ := tickFamily_rows htick hu
  rw [hend, hrows, hsame]
  rw [deaths_congr hsame] at hheirs
  exact ⟨heirs, rfl, hheirs, fun x hx => hfresh.trans (hnew x hx)⟩

/-- The rows of a tick: a row of before with its fate, an heir, or a row of a family the tick does not come to. -/
theorem mem_after_tick (hs : s.Inv) (h : lifeTick tiers s req = some (q, t)) (hm : m ∈ t.members) :
    (∃ f ∈ s.tickFamilies req, m.familyId = f.id ∧
      ((∃ x ∈ s.membersOf f.id, m = x.fate f.policy req) ∨
        ∃ x ∈ s.membersOf f.id, (x.age f.policy req.forceAge).IsHeir f.policy m)) ∨
      ((∀ f ∈ s.tickFamilies req, f.id ≠ m.familyId) ∧ m ∈ s.members) := by
  by_cases hcome : ∃ f ∈ s.tickFamilies req, f.id = m.familyId
  · obtain ⟨f, hf, hid⟩ := hcome
    obtain ⟨heirs, hrows, hheirs, -⟩ := lifeTick_rows h hs hf
    have hrow : m ∈ t.membersOf f.id := mem_membersOf.mpr ⟨hm, hid.symm⟩
    rw [hrows] at hrow
    refine .inl ⟨f, hf, hid.symm, ?_⟩
    rcases List.mem_append.mp hrow with hold | hheir
    · obtain ⟨x, hx, rfl⟩ := List.mem_map.mp hold
      exact .inl ⟨x, hx, rfl⟩
    · obtain ⟨d, hd, hisHeir⟩ := exists_succeeded hheirs hheir
      obtain ⟨x, hx, -, rfl⟩ := exists_of_mem_deaths hd
      exact .inr ⟨x, hx, hisHeir⟩
  · have hnot : ∀ f ∈ s.tickFamilies req, f.id ≠ m.familyId := fun f hf hid => hcome ⟨f, hf, hid⟩
    have hrow : m ∈ t.membersOf m.familyId := mem_membersOf.mpr ⟨hm, rfl⟩
    rw [lifeTick_elsewhere h hs hnot] at hrow
    exact .inr ⟨hnot, (mem_membersOf.mp hrow).1⟩

end Persola.City
